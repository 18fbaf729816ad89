import Stencil.Decimal.Notation
set_option autoImplicit false

namespace Stencil

inductive Symbol where
  | trueWord | falseWord | nullWord | ifWord | elseWord | andWord | orWord | notWord | piWord | infinityWord
  | plus | minus | star | slash | percent | bang | tilde | amp | pipe | caret | ampAmp | pipePipe
  | eqEq | bangEq | eq | matched | unmatched | lt | ltEq | gt | gtEq
  | coalesce | question | colon | dot | comma
  | lParen | rParen | lBracket | rBracket
deriving DecidableEq, Repr, Inhabited

inductive IntSuffix where
  | none | unsigned | long | unsignedLong
  /-- One of the binary magnitudes; the value is already multiplied out. -/
  | magnitude
deriving DecidableEq, Repr, Inhabited

inductive RealSuffix where
  | none | single | double
  /-- One of the binary magnitudes; the value is already multiplied out. -/
  | magnitude
deriving DecidableEq, Repr, Inhabited

inductive Token where
  | fixed (symbol : Symbol)
  | context (n : Nat)
  | integer (value : Nat) (suffix : IntSuffix)
  | real (value : Float) (suffix : RealSuffix)
  | text (value : String)
  | pattern (body flags : String)
  | name (value : String)
deriving Repr, Inhabited

namespace Symbol

def text : Symbol → String
  | trueWord => "true" | falseWord => "false" | nullWord => "null" | ifWord => "if" | elseWord => "else"
  | andWord => "and" | orWord => "or" | notWord => "not" | piWord => "pi" | infinityWord => "infinity"
  | plus => "+" | minus => "-" | star => "*" | slash => "/" | percent => "%" | bang => "!" | tilde => "~"
  | amp => "&" | pipe => "|" | caret => "^" | ampAmp => "&&" | pipePipe => "||"
  | eqEq => "==" | bangEq => "!=" | eq => "=" | matched => "=~" | unmatched => "!~"
  | lt => "<" | ltEq => "<=" | gt => ">" | gtEq => ">="
  | coalesce => "??" | question => "?" | colon => ":" | dot => "." | comma => ","
  | lParen => "(" | rParen => ")" | lBracket => "[" | rBracket => "]"

def keywords : List Symbol :=
  [trueWord, falseWord, nullWord, ifWord, elseWord, andWord, orWord, notWord, piWord, infinityWord]

def isKeyword (s : Symbol) : Bool := keywords.contains s

def title : Symbol → String
  | trueWord => "True" | falseWord => "False" | nullWord => "Null" | ifWord => "If" | elseWord => "Else"
  | andWord => "And" | orWord => "Or" | notWord => "Not" | piWord => "Pi" | infinityWord => "Infinity"
  | plus => "Plus" | minus => "Minus" | star => "Star" | slash => "Slash" | percent => "Percent"
  | bang => "Bang" | tilde => "Tilde" | amp => "Amp" | pipe => "Pipe" | caret => "Caret"
  | ampAmp => "AmpAmp" | pipePipe => "PipePipe" | eqEq => "EqEq" | bangEq => "BangEq" | eq => "Eq"
  | matched => "Matches" | unmatched => "NotMatches" | lt => "Lt" | ltEq => "LtEq" | gt => "Gt"
  | gtEq => "GtEq" | coalesce => "Coalesce" | question => "Question" | colon => "Colon" | dot => "Dot"
  | comma => "Comma" | lParen => "LParen" | rParen => "RParen" | lBracket => "LBracket"
  | rBracket => "RBracket"

def ofWord? (word : String) : Option Symbol := keywords.find? fun s => s.text == word

end Symbol

def IntSuffix.title : IntSuffix → String
  | none => "None" | unsigned => "Unsigned" | long => "Long" | unsignedLong => "UnsignedLong"
  | magnitude => "Magnitude"

def RealSuffix.title : RealSuffix → String
  | none => "None" | single => "Single" | double => "Double" | magnitude => "Magnitude"

namespace Token

def title : Token → String
  | fixed s => s.title
  | context _ => "Context"
  | integer _ _ | real _ _ => "Number"
  | text _ => "Str"
  | pattern _ _ => "Regex"
  | name _ => "Ident"

/-- Spelling of a token in messages. Text literals are shown with their decoded text. -/
def display : Token → String
  | fixed s => s.text
  | context n => "$" ++ toString n
  | integer v _ => toString v
  | real v _ => Decimal.literalText v
  | text s => "\"" ++ s ++ "\""
  | pattern body flags => "r\"" ++ body ++ "\"" ++ flags
  | name n => n

end Token

end Stencil
