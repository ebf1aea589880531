import Emend.Layout
import Emend.Source.Tree
import Emend.SourceUnit

/-!
# Printing

The canonical text of a source unit: the tag, the strict types directive, and
for each namespace its line, its imports sorted by kind and name, and its type
declarations with the braces on lines of their own. Blocks are an empty line
apart. Namespaces stand in braces exactly when there are several of them and one
is global.
-/

set_option autoImplicit false

namespace Emend

/-- How source units are printed. -/
structure Printer where
  /-- How many spaces one step of indentation has. -/
  indent : Nat := 4
  deriving DecidableEq, Repr, Inhabited

namespace Printer

/-- The marks of the lines of code that stands between `before` and `after`. Code
of one line, and code without a character that opens a literal, has no marks to
find. -/
def fragmentMarks (before code after : String) : List LineMark :=
  let opens (c : Char) : Bool := c == '\'' || c == '"' || c == '\x60' || c == '<'
  let spans :=
    if code.toList.contains '\n' && code.toList.any opens then
      literalSpans (before ++ code ++ after).toList
    else []
  marksFrom spans before.length (Text.splitChars '\n' code.toList)

/-- The doc comment of these lines, with a line feed after it; nothing for no
lines. -/
def docBlock (doc : List String) (pad : String) : String :=
  if doc.isEmpty then ""
  else
    pad ++ "/**\n" ++
      String.join (doc.map fun line =>
        if line.isEmpty then pad ++ " *\n" else pad ++ " * " ++ line ++ "\n") ++
      pad ++ " */\n"

/-- A value whose further lines are indented. -/
def value (text pad : String) : String :=
  Layout.continueLines text pad (fragmentMarks "<?php\n$_ = " text ";\n")

def importLine (i : Import) : String :=
  let keyword := (i.kind.keyword?.map (· ++ " ")).getD ""
  if i.isAliased then "use " ++ keyword ++ i.name ++ " as " ++ i.localName ++ ";"
  else "use " ++ keyword ++ i.name ++ ";"

/-- Whether an import is listed before another one or beside it: by kind, then
by name in lower case. -/
def importsInOrder (a b : Import) : Bool :=
  if a.kind == b.kind then Text.lower a.name ≤ Text.lower b.name else a.kind.rank ≤ b.kind.rank

/-- The names of a list, shortened, with commas between them. -/
def nameList (scope : Scope) (names : List String) : String :=
  ", ".intercalate (names.map scope.shorten)

def traitUse (scope : Scope) (use : TraitUse) (pad : String) : String :=
  let name := scope.shorten use.name
  match use.adaptations with
  | none => pad ++ "use " ++ name ++ ";"
  | some rules =>
    let inner := Layout.indentLines rules (pad ++ pad) []
    pad ++ "use " ++ name ++ " \x7b\n" ++ (if inner.isEmpty then "" else inner ++ "\n") ++ pad ++
      "\x7d"

def constant (c : Constant) (pad : String) : String :=
  docBlock c.doc pad ++ pad ++ (if c.isFinal then "final " else "") ++
    (c.visibility.map (·.keyword ++ " ")).getD "" ++ "const " ++
    (c.typeHint.map (· ++ " ")).getD "" ++ c.name ++ " = " ++ value c.value pad ++ ";"

def property (scope : Scope) (p : Property) (pad : String) : String :=
  docBlock p.doc pad ++ pad ++ p.visibility.keyword ++ (if p.isStatic then " static" else "") ++
    (if p.isReadonly then " readonly" else "") ++
    (p.typeHint.map fun hint => " " ++ scope.shortenType hint).getD "" ++ " $" ++ p.name ++
    (p.value.map fun text => " = " ++ value text pad).getD "" ++ ";"

def body (text pad : String) : String :=
  let text := Text.dropEnd '\n' (Text.dropStart '\n' text)
  let inner := Layout.indentLines text (pad ++ pad) (fragmentMarks "<?php\n" text "\n")
  "\n" ++ pad ++ "\x7b\n" ++ (if inner.isEmpty then "" else inner ++ "\n") ++ pad ++ "\x7d"

def method (scope : Scope) (m : Method) (pad : String) : String :=
  docBlock m.doc pad ++ pad ++ (if m.isFinal then "final " else "") ++
    (if m.isAbstract then "abstract " else "") ++ m.visibility.keyword ++
    (if m.isStatic then " static" else "") ++ " function " ++ m.name ++ "(" ++ m.parameters ++
    ")" ++ (m.returnType.map fun type => ": " ++ scope.shortenType type).getD "" ++
    (match m.body with
      | none => ";"
      | some text => body text pad)

def header (scope : Scope) (decl : TypeDecl) : String :=
  " ".intercalate (decl.modifiers ++ [decl.kind.keyword, decl.name] ++
    (if decl.bases.isEmpty then [] else ["extends " ++ nameList scope decl.bases]) ++
    (if decl.interfaces.isEmpty then []
      else ["implements " ++ nameList scope decl.interfaces]))

/-- The texts of the members of a type: the trait uses together, then each
constant, property and method. -/
def members (printer : Printer) (scope : Scope) (decl : TypeDecl) : List String :=
  let pad := String.ofList (List.replicate printer.indent ' ')
  (if decl.traits.isEmpty then []
    else ["\n".intercalate (decl.traits.values.map fun use => traitUse scope use pad)]) ++
    decl.constants.values.map (fun c => constant c pad) ++
    decl.properties.values.map (fun p => property scope p pad) ++
    decl.methods.values.map (fun m => method scope m pad)

def type (printer : Printer) (scope : Scope) (decl : TypeDecl) : String :=
  let members := printer.members scope decl
  docBlock decl.doc "" ++ header scope decl ++ "\n\x7b\n" ++
    (if members.isEmpty then "" else "\n\n".intercalate members ++ "\n") ++ "\x7d"

/-- The blocks of a namespace: its imports together, then each type. -/
def namespaceBlocks (printer : Printer) (ns : Namespace) : List String :=
  let imports := sortBy importsInOrder ns.allImports
  (if imports.isEmpty then [] else ["\n".intercalate (imports.map importLine)]) ++
    ns.types.values.map (printer.type ns.scope)

def isBraced (unit : SourceUnit) : Bool :=
  unit.namespaces.size > 1 && unit.namespaces.contains ""

def blocks (printer : Printer) (unit : SourceUnit) : List String :=
  ["<?php"] ++ (if unit.strictTypes then ["declare(strict_types=1);"] else []) ++
    unit.namespaces.values.flatMap fun ns =>
      let inner := printer.namespaceBlocks ns
      if isBraced unit then
        let opening := if ns.isGlobal then "namespace \x7b" else "namespace " ++ ns.name ++ " \x7b"
        ["\n\n".intercalate ([opening] ++ inner ++ ["\x7d"])]
      else (if ns.isGlobal then [] else ["namespace " ++ ns.name ++ ";"]) ++ inner

def print (printer : Printer) (unit : SourceUnit) : String :=
  "\n\n".intercalate (printer.blocks unit) ++ "\n"

end Printer

end Emend
