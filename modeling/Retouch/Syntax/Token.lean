import Retouch.Text.Lines
import Retouch.Syntax.Numeral

/-!
# Tokens

The words and signs of the language, and the tokens that the grammar reads.

- `Punct`: the punctuators, with their spelling `Punct.text`.
- `Keyword`: every word with a meaning of its own somewhere in the grammar. Most of them are
  ordinary names elsewhere; `Keyword.isReserved` tells the ones that never are.
- `TokenKind`, `Token`: a token with its byte range and whether a line break stands before it.
- `SyntaxError`: a complaint and the byte offset it is about.
-/

namespace Retouch.Syntax

/-- The punctuators. -/
inductive Punct where
  | lparen | rparen | lbracket | rbracket | lbrace | rbrace | semi | comma | dot | ellipsis
  | question | nullish | nullishEq | colon | arrow | eq | eqEq | eqEqEq | bang
  | bangEq | bangEqEq | lt | ltEq | shl | shlEq | gt | gtEq | shr | shrEq | ushr | ushrEq | plus
  | plusPlus | plusEq | minus | minusMinus | minusEq | star | starEq | power | powerEq | slash
  | slashEq | percent | percentEq | amp | ampAmp | ampEq | ampAmpEq | bar | barBar | barEq
  | barBarEq | caret | caretEq | tilde | atSign | hash | backquote
deriving DecidableEq, Repr

/-- Spelling of a punctuator. -/
def Punct.text : Punct → String
  | .lparen => "("
  | .rparen => ")"
  | .lbracket => "["
  | .rbracket => "]"
  | .lbrace => "\x7b"
  | .rbrace => "\x7d"
  | .semi => ";"
  | .comma => ","
  | .dot => "."
  | .ellipsis => "..."
  | .question => "?"
  | .nullish => "??"
  | .nullishEq => "??="
  | .colon => ":"
  | .arrow => "=>"
  | .eq => "="
  | .eqEq => "=="
  | .eqEqEq => "==="
  | .bang => "!"
  | .bangEq => "!="
  | .bangEqEq => "!=="
  | .lt => "<"
  | .ltEq => "<="
  | .shl => "<<"
  | .shlEq => "<<="
  | .gt => ">"
  | .gtEq => ">="
  | .shr => ">>"
  | .shrEq => ">>="
  | .ushr => ">>>"
  | .ushrEq => ">>>="
  | .plus => "+"
  | .plusPlus => "++"
  | .plusEq => "+="
  | .minus => "-"
  | .minusMinus => "--"
  | .minusEq => "-="
  | .star => "*"
  | .starEq => "*="
  | .power => "**"
  | .powerEq => "**="
  | .slash => "/"
  | .slashEq => "/="
  | .percent => "%"
  | .percentEq => "%="
  | .amp => "&"
  | .ampAmp => "&&"
  | .ampEq => "&="
  | .ampAmpEq => "&&="
  | .bar => "|"
  | .barBar => "||"
  | .barEq => "|="
  | .barBarEq => "||="
  | .caret => "^"
  | .caretEq => "^="
  | .tilde => "~"
  | .atSign => "@"
  | .hash => "#"
  | .backquote => "`"

/-- The words with a meaning of their own in some place of the grammar. -/
inductive Keyword where
  | kwAwait | kwBreak | kwCase | kwCatch | kwClass | kwConst | kwContinue | kwDebugger
  | kwDefault | kwDelete | kwDo | kwElse | kwEnum | kwExport | kwExtends | kwFalse | kwFinally
  | kwFor | kwFunction | kwIf | kwImport | kwIn | kwInstanceof | kwInterface | kwLet | kwNew
  | kwNull | kwPackage | kwPrivate | kwProtected | kwPublic | kwReturn | kwStatic | kwSuper
  | kwSwitch | kwThis | kwThrow | kwTrue | kwTry | kwTypeof | kwVar | kwVoid | kwWhile | kwWith
  | kwYield | kwAbstract | kwAccessor | kwAny | kwAs | kwAssert | kwAsserts | kwAsync | kwBigint
  | kwBoolean | kwConstructor | kwDeclare | kwFrom | kwGet | kwGlobal | kwImplements | kwInfer
  | kwIntrinsic | kwIs | kwKeyof | kwMeta | kwModule | kwNamespace | kwNever | kwNumber
  | kwObject | kwOf | kwOut | kwOverride | kwReadonly | kwRequire | kwSatisfies | kwSet
  | kwString | kwSymbol | kwTarget | kwType | kwUndefined | kwUnique | kwUnknown | kwUsing
deriving DecidableEq, Repr

/-- Spelling of a keyword. -/
def Keyword.text : Keyword → String
  | .kwAwait => "await"
  | .kwBreak => "break"
  | .kwCase => "case"
  | .kwCatch => "catch"
  | .kwClass => "class"
  | .kwConst => "const"
  | .kwContinue => "continue"
  | .kwDebugger => "debugger"
  | .kwDefault => "default"
  | .kwDelete => "delete"
  | .kwDo => "do"
  | .kwElse => "else"
  | .kwEnum => "enum"
  | .kwExport => "export"
  | .kwExtends => "extends"
  | .kwFalse => "false"
  | .kwFinally => "finally"
  | .kwFor => "for"
  | .kwFunction => "function"
  | .kwIf => "if"
  | .kwImport => "import"
  | .kwIn => "in"
  | .kwInstanceof => "instanceof"
  | .kwInterface => "interface"
  | .kwLet => "let"
  | .kwNew => "new"
  | .kwNull => "null"
  | .kwPackage => "package"
  | .kwPrivate => "private"
  | .kwProtected => "protected"
  | .kwPublic => "public"
  | .kwReturn => "return"
  | .kwStatic => "static"
  | .kwSuper => "super"
  | .kwSwitch => "switch"
  | .kwThis => "this"
  | .kwThrow => "throw"
  | .kwTrue => "true"
  | .kwTry => "try"
  | .kwTypeof => "typeof"
  | .kwVar => "var"
  | .kwVoid => "void"
  | .kwWhile => "while"
  | .kwWith => "with"
  | .kwYield => "yield"
  | .kwAbstract => "abstract"
  | .kwAccessor => "accessor"
  | .kwAny => "any"
  | .kwAs => "as"
  | .kwAssert => "assert"
  | .kwAsserts => "asserts"
  | .kwAsync => "async"
  | .kwBigint => "bigint"
  | .kwBoolean => "boolean"
  | .kwConstructor => "constructor"
  | .kwDeclare => "declare"
  | .kwFrom => "from"
  | .kwGet => "get"
  | .kwGlobal => "global"
  | .kwImplements => "implements"
  | .kwInfer => "infer"
  | .kwIntrinsic => "intrinsic"
  | .kwIs => "is"
  | .kwKeyof => "keyof"
  | .kwMeta => "meta"
  | .kwModule => "module"
  | .kwNamespace => "namespace"
  | .kwNever => "never"
  | .kwNumber => "number"
  | .kwObject => "object"
  | .kwOf => "of"
  | .kwOut => "out"
  | .kwOverride => "override"
  | .kwReadonly => "readonly"
  | .kwRequire => "require"
  | .kwSatisfies => "satisfies"
  | .kwSet => "set"
  | .kwString => "string"
  | .kwSymbol => "symbol"
  | .kwTarget => "target"
  | .kwType => "type"
  | .kwUndefined => "undefined"
  | .kwUnique => "unique"
  | .kwUnknown => "unknown"
  | .kwUsing => "using"

/-- Every keyword. -/
def Keyword.all : List Keyword :=
  [.kwAwait, .kwBreak, .kwCase, .kwCatch, .kwClass, .kwConst, .kwContinue, .kwDebugger,
    .kwDefault, .kwDelete, .kwDo, .kwElse, .kwEnum, .kwExport, .kwExtends, .kwFalse, .kwFinally,
    .kwFor, .kwFunction, .kwIf, .kwImport, .kwIn, .kwInstanceof, .kwInterface, .kwLet, .kwNew,
    .kwNull, .kwPackage, .kwPrivate, .kwProtected, .kwPublic, .kwReturn, .kwStatic, .kwSuper,
    .kwSwitch, .kwThis, .kwThrow, .kwTrue, .kwTry, .kwTypeof, .kwVar, .kwVoid, .kwWhile, .kwWith,
    .kwYield, .kwAbstract, .kwAccessor, .kwAny, .kwAs, .kwAssert, .kwAsserts, .kwAsync,
    .kwBigint, .kwBoolean, .kwConstructor, .kwDeclare, .kwFrom, .kwGet, .kwGlobal, .kwImplements,
    .kwInfer, .kwIntrinsic, .kwIs, .kwKeyof, .kwMeta, .kwModule, .kwNamespace, .kwNever,
    .kwNumber, .kwObject, .kwOf, .kwOut, .kwOverride, .kwReadonly, .kwRequire, .kwSatisfies,
    .kwSet, .kwString, .kwSymbol, .kwTarget, .kwType, .kwUndefined, .kwUnique, .kwUnknown,
    .kwUsing]

/-- The keyword with a given spelling. -/
def Keyword.ofText? (text : String) : Option Keyword :=
  Keyword.all.find? fun k => k.text == text

/-- Words that never name anything. -/
def Keyword.isReserved : Keyword → Bool
  | .kwBreak | .kwCase | .kwCatch | .kwClass | .kwConst | .kwContinue | .kwDebugger | .kwDefault
  | .kwDelete | .kwDo | .kwElse | .kwEnum | .kwExport | .kwExtends | .kwFalse | .kwFinally
  | .kwFor | .kwFunction | .kwIf | .kwImport | .kwIn | .kwInstanceof | .kwNew | .kwNull
  | .kwReturn | .kwSuper | .kwSwitch | .kwThis | .kwThrow | .kwTrue | .kwTry | .kwTypeof
  | .kwVar | .kwVoid | .kwWhile | .kwWith => true
  | _ => false

/-- Words that name nothing in strict code. -/
def Keyword.isReservedInStrict : Keyword → Bool
  | .kwImplements | .kwInterface | .kwLet | .kwPackage | .kwPrivate | .kwProtected | .kwPublic
  | .kwStatic | .kwYield => true
  | _ => false

/-- Words that name nothing in the code of a module. -/
def Keyword.isReservedInModule (k : Keyword) : Bool :=
  k.isReserved || k.isReservedInStrict || k == .kwAwait

/-- Words that cannot be written with escapes. Before it is known that the code is strict, fewer
words are reserved. -/
def Keyword.deniesEscapes (strict : Bool) (k : Keyword) : Bool :=
  if strict then k.isReservedInModule else k.isReserved

/-- A complaint about a text, and the byte offset of what it is about. -/
structure SyntaxError where
  offset : Nat
  message : String
deriving DecidableEq, Repr

/-- A name or keyword. A word whose first character is written as an escape is never a keyword. -/
structure Word where
  name : String
  keyword : Option Keyword
deriving DecidableEq, Repr

/-- A string's value: its code points, where a surrogate may stand alone. -/
abbrev CodePoints := List Nat

/-- What a token is. -/
inductive TokenKind where
  | eof
  | punct (p : Punct)
  | word (w : Word)
  | number (value : Numeral)
  | bigint (value : Nat)
  | string (value : CodePoints)
  | bad (e : SyntaxError)
deriving DecidableEq, Repr

/-- A token, its byte range, and whether a line break stands before it. -/
structure Token where
  kind : TokenKind
  start : Nat
  stop : Nat
  afterBreak : Bool
deriving DecidableEq, Repr

end Retouch.Syntax
