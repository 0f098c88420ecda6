/-!
# Kinds of syntax nodes

The parser names the kind of every node by a tag. A tag without a use here is kept as it is.
-/
namespace RailsReview

inductive Kind where
  /-- Root of a file. -/
  | program
  /-- Untagged list of nodes: statements, arguments. -/
  | list
  | classDef
  /-- The body that reopens one object's own class. -/
  | singletonClass
  | moduleDef
  | methodDef
  /-- A method defined on one object. -/
  | singletonDef
  /-- Method body with its rescue, else and ensure clauses. -/
  | bodyStatement
  | params
  | paren
  /-- A call with a receiver and no arguments. -/
  | call
  /-- A call without receiver, its arguments in parentheses. -/
  | functionCall
  /-- A bare identifier that may be a call. -/
  | variableCall
  /-- A call without receiver or parentheses. -/
  | command
  /-- A call with a receiver and without parentheses. -/
  | commandCall
  /-- A call with arguments in parentheses. -/
  | methodAddArg
  /-- A call with a block. -/
  | methodAddBlock
  | argParen
  | argsAddBlock
  | argsAddStar
  | doBlock
  | braceBlock
  | blockVar
  /-- Keyword arguments without braces. -/
  | bareAssocHash
  | hash
  | assocListFromArgs
  /-- One key and its value. -/
  | assocNew
  | assocSplat
  | array
  | word
  | assign
  | opAssign
  | multiAssign
  | varField
  | varRef
  | field
  | index
  | indexField
  | constRef
  | constPathRef
  | topConstRef
  | ifStatement
  | unlessStatement
  | elsifClause
  | elseClause
  | ifModifier
  | unlessModifier
  | ternary
  | whileLoop
  | untilLoop
  | caseStatement
  | whenClause
  | binary
  | unary
  | beginBlock
  | rescueClause
  | ensureClause
  | returnStatement
  | yieldStatement
  | inclusiveRange
  | exclusiveRange
  | stringLiteral
  | shellLiteral
  | stringContent
  | interpolation
  | symbolLiteral
  | symbol
  | dynamicSymbol
  | aliasDef
  | varAlias
  | voidStatement
  | identifier
  | constant
  | instanceVariable
  | classVariable
  | globalVariable
  | keyword
  /-- A key with its colon. -/
  | label
  | stringText
  | integer
  | floating
  | period
  | operator
  | other (tag : String)
  deriving DecidableEq, Repr, Inhabited

namespace Kind

/-- The tag the parser gives the kind. -/
def tag : Kind → String
  | program => "program"
  | list => "list"
  | classDef => "class"
  | singletonClass => "sclass"
  | moduleDef => "module"
  | methodDef => "def"
  | singletonDef => "defs"
  | bodyStatement => "bodystmt"
  | params => "params"
  | paren => "paren"
  | call => "call"
  | functionCall => "fcall"
  | variableCall => "vcall"
  | command => "command"
  | commandCall => "command_call"
  | methodAddArg => "method_add_arg"
  | methodAddBlock => "method_add_block"
  | argParen => "arg_paren"
  | argsAddBlock => "args_add_block"
  | argsAddStar => "args_add_star"
  | doBlock => "do_block"
  | braceBlock => "brace_block"
  | blockVar => "block_var"
  | bareAssocHash => "bare_assoc_hash"
  | hash => "hash"
  | assocListFromArgs => "assoclist_from_args"
  | assocNew => "assoc_new"
  | assocSplat => "assoc_splat"
  | array => "array"
  | word => "word"
  | assign => "assign"
  | opAssign => "opassign"
  | multiAssign => "massign"
  | varField => "var_field"
  | varRef => "var_ref"
  | field => "field"
  | index => "aref"
  | indexField => "aref_field"
  | constRef => "const_ref"
  | constPathRef => "const_path_ref"
  | topConstRef => "top_const_ref"
  | ifStatement => "if"
  | unlessStatement => "unless"
  | elsifClause => "elsif"
  | elseClause => "else"
  | ifModifier => "if_mod"
  | unlessModifier => "unless_mod"
  | ternary => "ifop"
  | whileLoop => "while"
  | untilLoop => "until"
  | caseStatement => "case"
  | whenClause => "when"
  | binary => "binary"
  | unary => "unary"
  | beginBlock => "begin"
  | rescueClause => "rescue"
  | ensureClause => "ensure"
  | returnStatement => "return"
  | yieldStatement => "yield"
  | inclusiveRange => "dot2"
  | exclusiveRange => "dot3"
  | stringLiteral => "string_literal"
  | shellLiteral => "xstring_literal"
  | stringContent => "string_content"
  | interpolation => "string_embexpr"
  | symbolLiteral => "symbol_literal"
  | symbol => "symbol"
  | dynamicSymbol => "dyna_symbol"
  | aliasDef => "alias"
  | varAlias => "var_alias"
  | voidStatement => "void_stmt"
  | identifier => "@ident"
  | constant => "@const"
  | instanceVariable => "@ivar"
  | classVariable => "@cvar"
  | globalVariable => "@gvar"
  | keyword => "@kw"
  | label => "@label"
  | stringText => "@tstring_content"
  | integer => "@int"
  | floating => "@float"
  | period => "@period"
  | operator => "@op"
  | other tag => tag

/-- The kinds that have a name here. -/
def known : List Kind :=
  [.program, .list, .classDef, .singletonClass, .moduleDef, .methodDef, .singletonDef,
   .bodyStatement, .params, .paren, .call, .functionCall, .variableCall, .command, .commandCall,
   .methodAddArg, .methodAddBlock, .argParen, .argsAddBlock, .argsAddStar, .doBlock, .braceBlock,
   .blockVar, .bareAssocHash, .hash, .assocListFromArgs, .assocNew, .assocSplat, .array, .word,
   .assign, .opAssign, .multiAssign, .varField, .varRef, .field, .index, .indexField, .constRef,
   .constPathRef, .topConstRef, .ifStatement, .unlessStatement, .elsifClause, .elseClause,
   .ifModifier, .unlessModifier, .ternary, .whileLoop, .untilLoop, .caseStatement, .whenClause,
   .binary, .unary, .beginBlock, .rescueClause, .ensureClause, .returnStatement, .yieldStatement,
   .inclusiveRange, .exclusiveRange, .stringLiteral, .shellLiteral, .stringContent,
   .interpolation, .symbolLiteral, .symbol, .dynamicSymbol, .aliasDef, .varAlias, .voidStatement,
   .identifier, .constant, .instanceVariable, .classVariable, .globalVariable, .keyword, .label,
   .stringText, .integer, .floating, .period, .operator]

def ofTag (tag : String) : Kind :=
  (known.find? (·.tag == tag)).getD (.other tag)

def isKnown : Kind → Bool
  | other _ => false
  | _ => true

/-- Tokens are the leaves; only they carry a position of their own. -/
def isToken (k : Kind) : Bool := k.tag.toList.head? == some '@'

end Kind

end RailsReview
