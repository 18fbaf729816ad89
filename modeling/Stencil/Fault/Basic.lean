import Stencil.Expr.Fault
import Stencil.Failure
import Stencil.Operator.Typing
set_option autoImplicit false

namespace Stencil

inductive FaultClass where
  | grammar | undefinedName | ambiguousOverload | ambiguousNamespace | typeMismatch | invalidName
  | scopeViolation | unknownDirective | unterminated | registration | internal
deriving DecidableEq, Repr, Inhabited

namespace FaultClass

def all : List FaultClass :=
  [grammar, undefinedName, ambiguousOverload, ambiguousNamespace, typeMismatch, invalidName,
    scopeViolation, unknownDirective, unterminated, registration, internal]

def label : FaultClass → String
  | grammar => "syntax error"
  | undefinedName => "undefined name"
  | ambiguousOverload => "ambiguous overload"
  | ambiguousNamespace => "ambiguous namespace"
  | typeMismatch => "type mismatch"
  | invalidName => "invalid variable name"
  | scopeViolation => "scope violation"
  | unknownDirective => "unknown directive"
  | unterminated => "unterminated region"
  | registration => "registration error"
  | internal => "internal compiler error"

def title : FaultClass → String
  | grammar => "Syntax"
  | undefinedName => "UndefinedName"
  | ambiguousOverload => "AmbiguousOverload"
  | ambiguousNamespace => "AmbiguousNamespace"
  | typeMismatch => "TypeMismatch"
  | invalidName => "InvalidVariableName"
  | scopeViolation => "ScopeViolation"
  | unknownDirective => "UnknownDirective"
  | unterminated => "UnterminatedRegion"
  | registration => "Registration"
  | internal => "Internal"

def ofTitle? (title : String) : Option FaultClass := all.find? fun c => c.title == title

end FaultClass

inductive RegionPart where
  | expression | tag | terminator
deriving DecidableEq, Repr, Inhabited

def RegionPart.text : RegionPart → String
  | expression => "expression"
  | tag => "directive tag"
  | terminator => "terminator"

inductive Fault where
  | custom (c : FaultClass) (message : String)
  | reading (f : SyntaxFault)
  | misapplied (m : Misapplied)
  | wrongKind (expected found : Kind)
  | invalidPattern (source : String) (unknownFlag : Option Char)
  | noContext (n depth : Nat)
  | unresolved (name : String)
  | noMember (kind : Kind) (name : String)
  | noMethod (kind : Kind) (name : String)
  | noStaticMember (type name : String)
  | noStaticMethod (type name : String)
  | typeAsValue (type : String)
  | ambiguousPath (path : String) (types : List String)
  | notIndexable (kind : Kind)
  | noOverload (name : String) (args : List Kind) (candidates : List String)
  | ambiguousCall (name : String) (candidates : List String)
  | notCallable (name : String) (kind : Kind)
  | needsCall (name : String) (params : Nat)
  | wrongArity (name : String) (params given : Nat)
  | strayTerminator (name : String)
  | unbalanced (directive : String) (depth expected : Nat)
  | emptyExpression
  | unclosed (part : RegionPart)
  | directiveNameExpected
  | misplacedWord (word : String)
  | unknownDirective (name : String)
  | unterminated (directive : String)
  | nestedInItself (directive : String)
  | wrongTerminator (name owner : String)
  | noArguments (directive : String)
  | requires (directive what : String)
  | emptyBody (directive : String)
  | afterElse (word : String)
  | notIterable (kind : Kind)
  | notValidIn (word directive : String)
  | onlyOnce (word directive : String)
  | alreadyLet (name : String)
  | boundTwice (name : String)
  | tooManyParameters (name : String) (count limit : Nat)
  | parameterTwice (name : String)
  | neverDefined (name : String)
  | undefinesLet (name : String)
  | undefinesParameter (name : String)
  | passesExpected
  | invalidDirectiveName (name : String)
  | alreadyRegistered (name : String)
  | reservedWord (name : String)
  | nameIsWord (name owner : String)
  | wordIsName (word directive : String)
  | wordTaken (word directive owner : String)
deriving Repr, Inhabited

namespace Fault

def classify : Fault → FaultClass
  | custom c _ => c
  | reading f => if f.classify = .name then .invalidName else .grammar
  | misapplied _ | wrongKind _ _ | typeAsValue _ | notIndexable _ | noOverload _ _ _ | notCallable _ _
  | needsCall _ _ | wrongArity _ _ _ | notIterable _ => .typeMismatch
  | unresolved _ | noMember _ _ | noMethod _ _ | noStaticMember _ _ | noStaticMethod _ _ => .undefinedName
  | ambiguousPath _ _ => .ambiguousNamespace
  | ambiguousCall _ _ => .ambiguousOverload
  | unbalanced _ _ _ => .internal
  | unclosed _ | unterminated _ => .unterminated
  | unknownDirective _ => .unknownDirective
  | alreadyLet _ | boundTwice _ | neverDefined _ | undefinesLet _ | undefinesParameter _ => .scopeViolation
  | invalidDirectiveName _ | alreadyRegistered _ | reservedWord _ | nameIsWord _ _ | wordIsName _ _
  | wordTaken _ _ _ => .registration
  | invalidPattern _ _ | noContext _ _ | strayTerminator _ | emptyExpression | directiveNameExpected
  | misplacedWord _ | nestedInItself _ | wrongTerminator _ _ | noArguments _ | requires _ _ | emptyBody _
  | afterElse _ | notValidIn _ _ | onlyOnce _ _ | tooManyParameters _ _ _ | parameterTwice _
  | passesExpected => .grammar

def quote (s : String) : String := "'" ++ s ++ "'"

def hashed (s : String) : String := "'#" ++ s ++ "'"

def terminator (name : String) : String := "$$/" ++ name ++ "$$"

def message : Fault → String
  | custom _ m => m
  | reading f => f.message
  | misapplied m => m.message
  | wrongKind expected found =>
    "expected a value of kind " ++ quote expected.display ++ ", found " ++ quote found.display
  | invalidPattern source flag => Failure.invalidPatternText source flag
  | noContext n depth =>
    "context $" ++ toString n ++ " does not exist here; " ++ toString depth ++ " context(s) are in scope"
  | unresolved name => "unresolved name " ++ quote name
  | noMember kind name => quote kind.display ++ " has no member " ++ quote name
  | noMethod kind name => quote kind.display ++ " has no method " ++ quote name
  | noStaticMember type name => "type " ++ quote type ++ " has no static member " ++ quote name
  | noStaticMethod type name => "type " ++ quote type ++ " has no static method " ++ quote name
  | typeAsValue type => quote type ++ " is a type, not a value"
  | ambiguousPath path types =>
    quote path ++ " is ambiguous between implied namespaces: " ++ ", ".intercalate types
  | notIndexable kind => "a value of kind " ++ quote kind.display ++ " cannot be indexed"
  | noOverload name args candidates =>
    "no overload of " ++ quote name ++ " accepts (" ++ ", ".intercalate (args.map Kind.display) ++
      "); candidates: " ++ ", ".intercalate candidates
  | ambiguousCall name candidates =>
    "call to " ++ quote name ++ " is ambiguous between " ++ ", ".intercalate candidates
  | notCallable name kind => quote name ++ " of kind " ++ quote kind.display ++ " cannot be called"
  | needsCall name params =>
    quote name ++ " takes " ++ toString params ++ " parameter(s); call it as " ++ name ++ "(...)"
  | wrongArity name params given =>
    quote name ++ " takes " ++ toString params ++ " argument(s), " ++ toString given ++ " given"
  | strayTerminator name => "unexpected terminator " ++ quote (terminator name)
  | unbalanced directive depth expected =>
    hashed directive ++ " left the scope stack at depth " ++ toString depth ++ " (expected " ++
      toString expected ++ ")"
  | emptyExpression => "empty expression"
  | unclosed part => part.text ++ " is missing its closing '$$'"
  | directiveNameExpected => "directive name expected after '#'"
  | misplacedWord word => hashed word ++ " is not inside a directive that accepts it"
  | unknownDirective name => "unknown directive " ++ hashed name
  | unterminated directive =>
    hashed directive ++ " is missing its " ++ quote (terminator directive) ++ " terminator"
  | nestedInItself directive => hashed directive ++ " cannot be nested inside itself"
  | wrongTerminator name owner => quote (terminator name) ++ " does not close " ++ hashed owner
  | noArguments directive => hashed directive ++ " takes no arguments"
  | requires directive what => hashed directive ++ " requires " ++ what
  | emptyBody directive => hashed directive ++ " body is empty"
  | afterElse word => hashed word ++ " after '#else'"
  | notIterable kind => "cannot iterate over a value of kind " ++ quote kind.display
  | notValidIn word directive => hashed word ++ " is not valid in " ++ hashed directive
  | onlyOnce word directive => hashed word ++ " may appear only once in " ++ hashed directive
  | alreadyLet name => quote name ++ " is already bound in a let context"
  | boundTwice name => quote name ++ " is bound twice in the same let"
  | tooManyParameters name count limit =>
    quote name ++ " declares " ++ toString count ++ " parameters; at most " ++ toString limit ++
      " are allowed"
  | parameterTwice name => "parameter " ++ quote name ++ " is declared twice"
  | neverDefined name => quote name ++ " was never defined"
  | undefinesLet name => quote name ++ " is bound by let and cannot be undefined"
  | undefinesParameter name => quote name ++ " is a fragment parameter and cannot be undefined"
  | passesExpected => "'passes' expects a positive integer"
  | invalidDirectiveName name => "invalid directive name " ++ quote name
  | alreadyRegistered name => "directive " ++ hashed name ++ " is already registered"
  | reservedWord name => quote name ++ " is a reserved control word"
  | nameIsWord name owner =>
    "directive " ++ hashed name ++ " collides with a control word of " ++ hashed owner
  | wordIsName word directive =>
    "control word " ++ quote word ++ " of " ++ hashed directive ++ " collides with directive " ++ hashed word
  | wordTaken word directive owner =>
    "control word " ++ quote word ++ " of " ++ hashed directive ++ " is already used by " ++ hashed owner

end Fault

end Stencil
