/-!
# Kinds of tokens

The significant tokens of a Kotlin source: literals, identifiers, hard keywords, punctuation and
operators, and two marks for malformed input and for the end.  A kind with a fixed spelling is
written in one way only; the tokenizer, the messages and the grammar all read that spelling here.
-/

namespace AnnotationScan

/-- The kind of a token.  Soft keywords such as `file` or `out` are identifiers. -/
inductive TokenKind where
  -- classes of spellings
  | integerLiteral | floatLiteral | characterLiteral | stringLiteral | rawStringLiteral
  | identifier
  -- hard keywords
  | asKeyword | breakKeyword | classKeyword | continueKeyword | doKeyword | elseKeyword
  | falseKeyword | forKeyword | funKeyword | ifKeyword | inKeyword | interfaceKeyword | isKeyword
  | nullKeyword | objectKeyword | packageKeyword | returnKeyword | superKeyword | thisKeyword
  | throwKeyword | trueKeyword | tryKeyword | typeAliasKeyword | typeOfKeyword | valKeyword
  | varKeyword | whenKeyword | whileKeyword
  -- two raw tokens that touch
  | safeCast | notIn | notIs
  -- punctuation and operators
  | atSign | leftParen | rightParen | leftBracket | rightBracket | leftBrace | rightBrace | comma
  | semicolon | colon | colonColon | dot | safeDot | elvis | question | arrow | doubleArrow
  | range | rangeUntil | hash | dollar | assign | equal | identical | notEqual | notIdentical
  | less | greater | lessOrEqual | greaterOrEqual | plus | minus | star | slash | percent
  | increment | decrement | bang | bangBang | conjunction | disjunction | ampersand | plusAssign
  | minusAssign | starAssign | slashAssign | percentAssign
  -- input that is no token, and the end
  | malformed | endOfInput
deriving DecidableEq, Repr, Inhabited

namespace TokenKind

/-- The one spelling of a kind, if it has only one. -/
def spelling? : TokenKind → Option String
  | .asKeyword => some "as"
  | .breakKeyword => some "break"
  | .classKeyword => some "class"
  | .continueKeyword => some "continue"
  | .doKeyword => some "do"
  | .elseKeyword => some "else"
  | .falseKeyword => some "false"
  | .forKeyword => some "for"
  | .funKeyword => some "fun"
  | .ifKeyword => some "if"
  | .inKeyword => some "in"
  | .interfaceKeyword => some "interface"
  | .isKeyword => some "is"
  | .nullKeyword => some "null"
  | .objectKeyword => some "object"
  | .packageKeyword => some "package"
  | .returnKeyword => some "return"
  | .superKeyword => some "super"
  | .thisKeyword => some "this"
  | .throwKeyword => some "throw"
  | .trueKeyword => some "true"
  | .tryKeyword => some "try"
  | .typeAliasKeyword => some "typealias"
  | .typeOfKeyword => some "typeof"
  | .valKeyword => some "val"
  | .varKeyword => some "var"
  | .whenKeyword => some "when"
  | .whileKeyword => some "while"
  | .safeCast => some "as?"
  | .notIn => some "!in"
  | .notIs => some "!is"
  | .atSign => some "@"
  | .leftParen => some "("
  | .rightParen => some ")"
  | .leftBracket => some "["
  | .rightBracket => some "]"
  | .leftBrace => some "\x7b"
  | .rightBrace => some "\x7d"
  | .comma => some ","
  | .semicolon => some ";"
  | .colon => some ":"
  | .colonColon => some "::"
  | .dot => some "."
  | .safeDot => some "?."
  | .elvis => some "?:"
  | .question => some "?"
  | .arrow => some "->"
  | .doubleArrow => some "=>"
  | .range => some ".."
  | .rangeUntil => some "..<"
  | .hash => some "#"
  | .dollar => some "$"
  | .assign => some "="
  | .equal => some "=="
  | .identical => some "==="
  | .notEqual => some "!="
  | .notIdentical => some "!=="
  | .less => some "<"
  | .greater => some ">"
  | .lessOrEqual => some "<="
  | .greaterOrEqual => some ">="
  | .plus => some "+"
  | .minus => some "-"
  | .star => some "*"
  | .slash => some "/"
  | .percent => some "%"
  | .increment => some "++"
  | .decrement => some "--"
  | .bang => some "!"
  | .bangBang => some "!!"
  | .conjunction => some "&&"
  | .disjunction => some "||"
  | .ampersand => some "&"
  | .plusAssign => some "+="
  | .minusAssign => some "-="
  | .starAssign => some "*="
  | .slashAssign => some "/="
  | .percentAssign => some "%="
  | _ => none

/-- What a kind is called in messages: its spelling in back quotes, or what it stands for. -/
def description (kind : TokenKind) : String :=
  match kind.spelling? with
  | some spelling => "`" ++ spelling ++ "`"
  | none =>
    match kind with
    | .integerLiteral => "integer literal"
    | .floatLiteral => "float literal"
    | .characterLiteral => "character literal"
    | .stringLiteral => "string literal"
    | .rawStringLiteral => "raw string literal"
    | .identifier => "identifier"
    | .endOfInput => "end of input"
    | _ => "malformed input"

/-- The words that are never identifiers. -/
def hardKeywords : List TokenKind :=
  [.asKeyword, .breakKeyword, .classKeyword, .continueKeyword, .doKeyword, .elseKeyword,
    .falseKeyword, .forKeyword, .funKeyword, .ifKeyword, .inKeyword, .interfaceKeyword,
    .isKeyword, .nullKeyword, .objectKeyword, .packageKeyword, .returnKeyword, .superKeyword,
    .thisKeyword, .throwKeyword, .trueKeyword, .tryKeyword, .typeAliasKeyword, .typeOfKeyword,
    .valKeyword, .varKeyword, .whenKeyword, .whileKeyword]

/-- The kinds written in signs that are not formed from two other tokens. -/
def signs : List TokenKind :=
  [.atSign, .leftParen, .rightParen, .leftBracket, .rightBracket, .leftBrace, .rightBrace,
    .comma, .semicolon, .colon, .colonColon, .dot, .safeDot, .elvis, .question, .arrow,
    .doubleArrow, .range, .rangeUntil, .hash, .dollar, .assign, .equal, .identical, .notEqual,
    .notIdentical, .less, .greater, .lessOrEqual, .greaterOrEqual, .plus, .minus, .star, .slash,
    .percent, .increment, .decrement, .bang, .bangBang, .conjunction, .disjunction, .ampersand,
    .plusAssign, .minusAssign, .starAssign, .slashAssign, .percentAssign]

def name : TokenKind → String
  | .integerLiteral => "IntegerLiteral"
  | .floatLiteral => "FloatLiteral"
  | .characterLiteral => "CharacterLiteral"
  | .stringLiteral => "StringLiteral"
  | .rawStringLiteral => "RawStringLiteral"
  | .identifier => "Identifier"
  | .asKeyword => "As"
  | .breakKeyword => "Break"
  | .classKeyword => "Class"
  | .continueKeyword => "Continue"
  | .doKeyword => "Do"
  | .elseKeyword => "Else"
  | .falseKeyword => "False"
  | .forKeyword => "For"
  | .funKeyword => "Fun"
  | .ifKeyword => "If"
  | .inKeyword => "In"
  | .interfaceKeyword => "Interface"
  | .isKeyword => "Is"
  | .nullKeyword => "Null"
  | .objectKeyword => "Object"
  | .packageKeyword => "Package"
  | .returnKeyword => "Return"
  | .superKeyword => "Super"
  | .thisKeyword => "This"
  | .throwKeyword => "Throw"
  | .trueKeyword => "True"
  | .tryKeyword => "Try"
  | .typeAliasKeyword => "TypeAlias"
  | .typeOfKeyword => "TypeOf"
  | .valKeyword => "Val"
  | .varKeyword => "Var"
  | .whenKeyword => "When"
  | .whileKeyword => "While"
  | .safeCast => "AsSafe"
  | .notIn => "NotIn"
  | .notIs => "NotIs"
  | .atSign => "At"
  | .leftParen => "LParen"
  | .rightParen => "RParen"
  | .leftBracket => "LBracket"
  | .rightBracket => "RBracket"
  | .leftBrace => "LBrace"
  | .rightBrace => "RBrace"
  | .comma => "Comma"
  | .semicolon => "Semicolon"
  | .colon => "Colon"
  | .colonColon => "ColonColon"
  | .dot => "Dot"
  | .safeDot => "SafeAccess"
  | .elvis => "Elvis"
  | .question => "Question"
  | .arrow => "Arrow"
  | .doubleArrow => "DoubleArrow"
  | .range => "Range"
  | .rangeUntil => "RangeUntil"
  | .hash => "Hash"
  | .dollar => "Dollar"
  | .assign => "Eq"
  | .equal => "EqEq"
  | .identical => "EqEqEq"
  | .notEqual => "ExclEq"
  | .notIdentical => "ExclEqEq"
  | .less => "Lt"
  | .greater => "Gt"
  | .lessOrEqual => "LtEq"
  | .greaterOrEqual => "GtEq"
  | .plus => "Plus"
  | .minus => "Minus"
  | .star => "Mul"
  | .slash => "Div"
  | .percent => "Perc"
  | .increment => "PlusPlus"
  | .decrement => "MinusMinus"
  | .bang => "Excl"
  | .bangBang => "ExclExcl"
  | .conjunction => "AndAnd"
  | .disjunction => "OrOr"
  | .ampersand => "Amp"
  | .plusAssign => "PlusEq"
  | .minusAssign => "MinusEq"
  | .starAssign => "MulEq"
  | .slashAssign => "DivEq"
  | .percentAssign => "PercEq"
  | .malformed => "Error"
  | .endOfInput => "Eof"

def all : List TokenKind :=
  [.integerLiteral, .floatLiteral, .characterLiteral, .stringLiteral, .rawStringLiteral,
    .identifier] ++ hardKeywords ++ [.safeCast, .notIn, .notIs] ++ signs ++
    [.malformed, .endOfInput]

def named? (text : String) : Option TokenKind :=
  all.find? fun kind => kind.name == text

theorem mem_all (kind : TokenKind) : kind ∈ all := by
  cases kind <;> decide

end TokenKind
end AnnotationScan
