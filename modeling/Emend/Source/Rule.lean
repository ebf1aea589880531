import Emend.Source.Quoted

/-!
# Grammar rules as data

A rule says which sequences of terminals a category stands for. Rules are built
from terminals and categories by sequence, choice, option and repetition, and a
rule may be wrapped in a label, which makes what it recognises a node of the
syntax tree.

Two conditions keep rules simple to follow from left to right, and the grammar
observes them: no category, no choice and no labelled rule stands for the empty
sequence, and no category begins with itself.
-/

set_option autoImplicit false

namespace Emend

inductive Terminal where
  | word (text : String)
  /-- A keyword in this very spelling. -/
  | spelled (text : String)
  | symbol (text : String)
  | tight (text : String)
  /-- A word of small letters with no gap before it. -/
  | tightWord
  | name
  | integer
  | float
  | quoted
  | text (quote : Quote) (afterVariable : Bool)
  /-- An escape sequence in a literal that embeds code. -/
  | escape
  | nowdocLine
  | openingTag
  | closingTag
  | lineEnd
  | lastLineEnd
  /-- The end of a statement before a closing tag. -/
  | impliedSemicolon
  | endOfText
  deriving DecidableEq, Repr, Inhabited

/-- The nodes of the syntax tree. -/
inductive Label where
  /-- A statement that declares nothing the library can hold. -/
  | statement (construct : String)
  | emptyStatement
  | directive
  | settingName
  | settingValue
  | space
  | spaceName
  | imports
  | importClause
  | importKind
  /-- The beginning that the names of a group share. -/
  | importGroup
  | importName
  | importAlias
  | «class»
  | interface
  | trait
  | typeName
  | attributes
  | body
  | constants
  | properties
  | method
  | traitUse
  | traitName
  | adaptations
  /-- One of several constants or properties declared together. -/
  | element
  | elementName
  | elementValue
  | methodName
  | parameters
  | returnType
  /-- A literal whose characters are part of a runtime value. -/
  | literal
  deriving DecidableEq, Repr, Inhabited

/-- The named parts of the grammar. A category stands before those it may begin
with. -/
inductive Category where
  | statement
  | colonBlock
  | switchCase
  | enumMember
  | member
  | adaptation
  | hookList
  | hook
  | parameters
  | parameter
  | returnType
  | argument
  | arrayElement
  | matchArm
  | foreachValue
  | listItem
  | bracketItem
  | expression
  | operand
  | castOperand
  | cloneOperand
  | term
  | plainTerm
  | listPattern
  | bracketPattern
  | afterPlace
  | afterValue
  | plainAfterPlace
  | plainAfterValue
  | place
  | placeRest
  | constantAccess
  | constantRest
  | classReference
  | anonymousClass
  | closure
  | arrowFunction
  | attributes
  | derefBase
  | placeSuffix
  | constantSuffix
  | arguments
  | instanceOf
  | condition
  | arrayCreation
  | text
  | doublePart
  | shellPart
  | heredocPart
  | shellCommand
  | block
  | memberList
  | useClause
  | «type»
  | simpleType
  | modifier
  | visibility
  | className
  | qualifiedName
  | reserved
  | simpleVariable
  | semicolon
  deriving DecidableEq, Repr, Inhabited

inductive Rule where
  | empty
  | terminal (t : Terminal)
  | category (c : Category)
  | sequence (first second : Rule)
  | choice (left right : Rule)
  | optional (rule : Rule)
  /-- An option that is taken whenever the next token can begin it. -/
  | eager (rule : Rule)
  | many (rule : Rule)
  | node (label : Label) (rule : Rule)
  deriving DecidableEq, Repr, Inhabited

namespace Rule

def all : List Rule → Rule
  | [] => empty
  | [rule] => rule
  | rule :: rules => sequence rule (all rules)

def any : List Rule → Rule
  | [] => empty
  | [rule] => rule
  | rule :: rules => choice rule (any rules)

def word (text : String) : Rule := terminal (.word text)

def words (texts : List String) : Rule := any (texts.map word)

def spelled (text : String) : Rule := terminal (.spelled text)

def mark (text : String) : Rule := terminal (.symbol text)

/-- One of several operators or punctuation marks. -/
def marks (texts : List String) : Rule := any (texts.map mark)

def name : Rule := terminal .name

/-- One or more times, with commas between. -/
def commaList (rule : Rule) : Rule := all [rule, many (all [mark ",", rule])]

/-- A rule between two marks. -/
def enclosed (opening : String) (rule : Rule) (closing : String) : Rule :=
  all [mark opening, rule, mark closing]

def parens (rule : Rule) : Rule := enclosed "(" rule ")"

def brackets (rule : Rule) : Rule := enclosed "[" rule "]"

def braces (rule : Rule) : Rule := enclosed "\x7b" rule "\x7d"

def skippable : Rule → Bool
  | empty => true
  | sequence first second => first.skippable && second.skippable
  | optional _ => true
  | eager _ => true
  | many _ => true
  | _ => false

/-- The terminals a rule can begin with, given those of the categories. -/
def firstTerminals (ofCategory : Category → List Terminal) : Rule → List Terminal
  | empty => []
  | terminal t => [t]
  | category c => ofCategory c
  | sequence first second =>
    first.firstTerminals ofCategory ++
      (if first.skippable then second.firstTerminals ofCategory else [])
  | choice left right => left.firstTerminals ofCategory ++ right.firstTerminals ofCategory
  | optional rule => rule.firstTerminals ofCategory
  | eager rule => rule.firstTerminals ofCategory
  | many rule => rule.firstTerminals ofCategory
  | node _ rule => rule.firstTerminals ofCategory

end Rule

end Emend
