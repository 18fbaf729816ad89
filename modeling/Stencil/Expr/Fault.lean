import Stencil.Span
import Stencil.Token.Basic
set_option autoImplicit false

namespace Stencil

inductive Wanted where
  | expression | binding | name | predicate | variableName | ofNamespace
deriving DecidableEq, Repr, Inhabited

inductive Place where
  | inExpression | afterDot | inArguments | afterCondition | inNamespace
  | afterExpression | afterBinding | afterHead | afterAssertion | afterVariable | afterNamespace
deriving DecidableEq, Repr, Inhabited

inductive SyntaxFault where
  | invalidToken (text : String)
  | nothing (wanted : Wanted)
  | expected (wanted : Symbol) (found : Option Token)
  | unexpected (found : Option Token) (place : Place)
  | notAName (found : Option Token)
  | tooLarge
deriving Repr, Inhabited

structure SyntaxError where
  fault : SyntaxFault
  span : Span
deriving Repr, Inhabited

def Wanted.text : Wanted → String
  | expression => "an expression"
  | binding => "a binding"
  | name => "a name"
  | predicate => "a predicate"
  | variableName => "a variable name"
  | ofNamespace => "a namespace"

def Place.text : Place → String
  | inExpression => "in expression"
  | afterDot => "after '.'"
  | inArguments => "in argument list"
  | afterCondition => "after 'if' condition, expected a value"
  | inNamespace => "in namespace"
  | afterExpression => "after expression"
  | afterBinding => "after let binding"
  | afterHead => "after define head"
  | afterAssertion => "after assertion"
  | afterVariable => "after variable name"
  | afterNamespace => "after namespace"

inductive SyntaxFault.Class where
  | token | ending | form | name
deriving DecidableEq, Repr, Inhabited

def SyntaxFault.Class.title : SyntaxFault.Class → String
  | token => "UnexpectedToken"
  | ending => "UnexpectedEof"
  | form => "InvalidSyntax"
  | name => "InvalidName"

namespace SyntaxFault

def classify : SyntaxFault → SyntaxFault.Class
  | invalidToken _ | nothing _ | tooLarge => .form
  | expected _ found | unexpected found _ => if found.isSome then .token else .ending
  | notAName _ => .name

def message : SyntaxFault → String
  | invalidToken text => "invalid token '" ++ text ++ "'"
  | nothing wanted => "expected " ++ wanted.text ++ ", found nothing"
  | expected wanted (some t) => "expected '" ++ wanted.text ++ "', found '" ++ t.display ++ "'"
  | expected wanted none => "expected '" ++ wanted.text ++ "', found end of input"
  | unexpected (some t) place => "unexpected '" ++ t.display ++ "' " ++ place.text
  | unexpected none place => "unexpected end of input " ++ place.text
  | notAName (some t) => "'" ++ t.display ++ "' is not a valid variable name"
  | notAName none => "expected a variable name, found end of input"
  | tooLarge => "integer literal is too large for its kind"

end SyntaxFault

namespace SyntaxError

def shift (e : SyntaxError) (base : Nat) : SyntaxError := ⟨e.fault, e.span.shift base⟩

def display (e : SyntaxError) : String :=
  e.fault.message ++ " at " ++ toString e.span.start ++ ".." ++ toString e.span.stop

end SyntaxError

end Stencil
