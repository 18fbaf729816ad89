import Stencil.Token.Lexer
import Stencil.Expr.Fault
set_option autoImplicit false

namespace Stencil

structure Placed where
  token : Token
  span : Span
deriving Repr, Inhabited

namespace Placed

/-- Tokens of a list of lexemes; the first invalid lexeme is the fault. -/
def ofLexemes (text : String) (base : Nat) : List Lexeme → Except SyntaxError (List Placed)
  | [] => .ok []
  | ⟨some t, s⟩ :: rest => do return ⟨t, s.shift base⟩ :: (← ofLexemes text base rest)
  | ⟨none, s⟩ :: _ =>
    .error ⟨.invalidToken (String.ofList (Text.slice text.toList s.start s.stop)), s.shift base⟩

def ofText (text : String) (base : Nat) : Except SyntaxError (List Placed) :=
  ofLexemes text base (Token.scan text)

def endOf (base : Nat) (ts : List Placed) : Nat :=
  match ts.getLast? with
  | some t => t.span.stop
  | none => base

/-- Where the next token stands; the end of the text when there is none. -/
def here (stop : Nat) : List Placed → Span
  | [] => .point stop
  | t :: _ => t.span

def next? : List Placed → Option Token
  | [] => none
  | t :: _ => some t.token

def isNext (s : Symbol) : List Placed → Bool
  | ⟨.fixed t, _⟩ :: _ => t == s
  | _ => false

theorem length_rest_lt (rest : List Placed) : rest.length < rest.length + 1 := Nat.lt_succ_self _

end Placed

end Stencil
