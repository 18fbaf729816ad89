import Stencil.Expr.Basic
import Stencil.Token.Placed
/-!
Reading expressions from tokens. Every reader answers with what is left of the tokens and with the proof
that it took at least one, so the readers end on every token list.
-/
set_option autoImplicit false

namespace Stencil

structure Parsed (α : Type) (n : Nat) where
  value : α
  rest : List Placed
  shorter : rest.length < n

structure Extended (α : Type) (n : Nat) where
  value : α
  rest : List Placed
  within : rest.length ≤ n

namespace Parsed

def widen {α : Type} {m n : Nat} (p : Parsed α m) (h : m ≤ n) : Parsed α n :=
  ⟨p.value, p.rest, Nat.lt_of_lt_of_le p.shorter h⟩

end Parsed

namespace Expr

abbrev Reading (α : Type) (ts : List Placed) : Type := Except SyntaxError (Parsed α ts.length)

def expect (s : Symbol) (stop : Nat) : (ts : List Placed) → Reading Span ts
  | ⟨.fixed t, span⟩ :: rest =>
    if t = s then .ok ⟨span, rest, Placed.length_rest_lt rest⟩ else .error ⟨.expected s (some (.fixed t)), span⟩
  | ts => .error ⟨.expected s (Placed.next? ts), Placed.here stop ts⟩

def binaryOp? : Symbol → Option BinaryOp
  | .coalesce => some .coalesce
  | .pipePipe | .orWord => some .or
  | .ampAmp | .andWord => some .and
  | .pipe => some .bitOr
  | .caret => some .bitXor
  | .amp => some .bitAnd
  | .eqEq | .eq => some .eq
  | .bangEq => some .ne
  | .matched => some .matched
  | .unmatched => some .unmatched
  | .lt => some .lt
  | .ltEq => some .le
  | .gt => some .gt
  | .gtEq => some .ge
  | .plus => some .add
  | .minus => some .sub
  | .star => some .mul
  | .slash => some .div
  | .percent => some .rem
  | _ => none

def unaryOp? : Symbol → Option UnaryOp
  | .minus => some .neg
  | .plus => some .plus
  | .bang | .notWord => some .not
  | .tilde => some .bitNot
  | _ => none

/-- Kinds an integer literal may take, the first that holds its value being chosen. -/
def literalKinds : IntSuffix → List IntKind
  | .none => [.i32, .i64, .u64]
  | .unsigned => [.u32, .u64]
  | .long => [.i64, .u64]
  | .unsignedLong => [.u64]
  | .magnitude => [.i64]

def integerLiteral? (value : Nat) (suffix : IntSuffix) : Option Literal :=
  if IntKind.i128.contains value then
    ((literalKinds suffix).find? fun k => k.contains value).map fun k => .int value k
  else none

def realLiteral (value : Float) (suffix : RealSuffix) : Literal :=
  let kind : FloatKind := if suffix = .single then .f32 else .f64
  .float (kind.round value) kind

/-- Ratio of a circle's circumference to its diameter, to the nearest double. -/
def pi : Float := Float.ofBits 0x400921FB54442D18

def infinity : Float := Float.ofBits 0x7FF0000000000000

def ofToken? : Placed → Option (Except SyntaxError Expr)
  | ⟨.fixed .trueWord, s⟩ => some (.ok (literal (.bool true) s))
  | ⟨.fixed .falseWord, s⟩ => some (.ok (literal (.bool false) s))
  | ⟨.fixed .nullWord, s⟩ => some (.ok (literal .null s))
  | ⟨.fixed .piWord, s⟩ => some (.ok (literal (.float pi .f64) s))
  | ⟨.fixed .infinityWord, s⟩ => some (.ok (literal (.float infinity .f64) s))
  | ⟨.fixed _, _⟩ => none
  | ⟨.integer v suffix, s⟩ =>
    match integerLiteral? v suffix with
    | some l => some (.ok (literal l s))
    | none => some (.error ⟨.tooLarge, s⟩)
  | ⟨.real v suffix, s⟩ => some (.ok (literal (realLiteral v suffix) s))
  | ⟨.text v, s⟩ => some (.ok (literal (.text v) s))
  | ⟨.pattern body flags, s⟩ => some (.ok (literal (.pattern body flags) s))
  | ⟨.context n, s⟩ => some (.ok (context n s))
  | ⟨.name n, s⟩ => some (.ok (name n s))

def memberName? : Token → Option String
  | .name n => some n
  | .fixed s => if s.isKeyword then some s.text else none
  | _ => none

def upTo (first last : Span) : Span := ⟨first.start, last.stop⟩

mutual

def parse (stop : Nat) (ts : List Placed) : Reading Expr ts :=
  if Placed.isNext .ifWord ts then parseIf stop ts
  else do
    let ⟨test, rest, h⟩ ← parseBinary stop 0 ts
    match rest, h with
    | ⟨.fixed .question, _⟩ :: afterMark, h => do
      let ⟨yes, rest₁, h₁⟩ ← parse stop afterMark
      let ⟨_, rest₂, h₂⟩ ← expect .colon stop rest₁
      let ⟨no, rest₃, h₃⟩ ← parse stop rest₂
      return ⟨choice test yes no (upTo test.span no.span), rest₃, by simp only [List.length_cons] at h; omega⟩
    | rest, h => return ⟨test, rest, h⟩
termination_by 8 * ts.length + 5
decreasing_by all_goals (try simp only [List.length_cons] at *); omega

def parseIf (stop : Nat) (ts : List Placed) : Reading Expr ts := do
  let ⟨word, rest, h⟩ ← expect .ifWord stop ts
  let ⟨test, rest₁, h₁⟩ ← parseBinary stop 0 rest
  if rest₁.isEmpty then throw ⟨.unexpected none .afterCondition, .point stop⟩
  let ⟨yes, rest₂, h₂⟩ ← parse stop rest₁
  match rest₂, h₂ with
  | ⟨.fixed .elseWord, _⟩ :: afterElse, h₂ => do
    let ⟨no, rest₃, h₃⟩ ← parse stop afterElse
    return ⟨choice test yes no (upTo word no.span), rest₃, by simp only [List.length_cons] at h₂; omega⟩
  | rest₂, h₂ => return ⟨guarded test yes (upTo word yes.span), rest₂, by omega⟩
termination_by 8 * ts.length + 2
decreasing_by all_goals (try simp only [List.length_cons] at *); omega

def parseBinary (stop strength : Nat) (ts : List Placed) : Reading Expr ts := do
  let ⟨left, rest, h⟩ ← parseOperand stop ts
  let ⟨e, rest₁, h₁⟩ ← parseOperators stop strength left rest
  return ⟨e, rest₁, by omega⟩
termination_by 8 * ts.length + 4
decreasing_by all_goals omega

/-- Reads operators of at least a given strength, with their right operands, after a left operand. -/
def parseOperators (stop strength : Nat) (left : Expr) (ts : List Placed) :
    Except SyntaxError (Extended Expr ts.length) :=
  match ts with
  | ⟨.fixed s, _⟩ :: rest =>
    match binaryOp? s with
    | some op =>
      if op.strength < strength then .ok ⟨left, ⟨.fixed s, _⟩ :: rest, Nat.le_refl _⟩
      else do
        let inner := if op.groupsRight then op.strength else op.strength + 1
        let ⟨right, rest₁, h₁⟩ ← parseBinary stop inner rest
        let ⟨e, rest₂, h₂⟩ ←
          parseOperators stop strength (binary op left right (upTo left.span right.span)) rest₁
        return ⟨e, rest₂, by simp only [List.length_cons]; omega⟩
    | none => .ok ⟨left, ⟨.fixed s, _⟩ :: rest, Nat.le_refl _⟩
  | ts => .ok ⟨left, ts, Nat.le_refl _⟩
termination_by 8 * ts.length + 4
decreasing_by all_goals (try simp only [List.length_cons] at *); omega

/-- Reads an operand: operators before it, a conditional, or an atom with what is applied to it. -/
def parseOperand (stop : Nat) (ts : List Placed) : Reading Expr ts :=
  match ts with
  | ⟨.fixed s, span⟩ :: rest =>
    match unaryOp? s with
    | some op => do
      let ⟨e, rest₁, h₁⟩ ← parseOperand stop rest
      return ⟨unary op e (upTo span e.span), rest₁, by simp only [List.length_cons]; omega⟩
    | none =>
      if s = .ifWord then parseIf stop (⟨.fixed s, span⟩ :: rest)
      else parseApplied stop (⟨.fixed s, span⟩ :: rest)
  | ts => parseApplied stop ts
termination_by 8 * ts.length + 3
decreasing_by all_goals (try simp only [List.length_cons] at *); omega

/-- Reads an atom with the member accesses, calls and positions applied to it. -/
def parseApplied (stop : Nat) (ts : List Placed) : Reading Expr ts := do
  let ⟨e, rest, h⟩ ← parseAtom stop ts
  let ⟨e, rest₁, h₁⟩ ← parseSuffixes stop e rest
  return ⟨e, rest₁, by omega⟩
termination_by 8 * ts.length + 2
decreasing_by all_goals omega

/-- Reads member accesses, calls and positions applied to an expression. -/
def parseSuffixes (stop : Nat) (e : Expr) (ts : List Placed) :
    Except SyntaxError (Extended Expr ts.length) :=
  match ts with
  | ⟨.fixed .dot, _⟩ :: rest =>
    match rest with
    | ⟨t, span⟩ :: rest₁ =>
      match memberName? t with
      | some n => do
        let ⟨e, rest₂, h₂⟩ ← parseSuffixes stop (member e n span (upTo e.span span)) rest₁
        return ⟨e, rest₂, by simp only [List.length_cons]; omega⟩
      | none => .error ⟨.unexpected (some t) .afterDot, span⟩
    | [] => .error ⟨.unexpected none .afterDot, .point stop⟩
  | ⟨.fixed .lParen, _⟩ :: rest => do
    let ⟨args, rest₁, h₁⟩ ← parseArguments stop rest
    let ⟨e, rest₂, h₂⟩ ← parseSuffixes stop (call e args.1 (upTo e.span args.2)) rest₁
    return ⟨e, rest₂, by simp only [List.length_cons]; omega⟩
  | ⟨.fixed .lBracket, _⟩ :: rest => do
    let ⟨i, rest₁, h₁⟩ ← parse stop rest
    let ⟨closing, rest₂, h₂⟩ ← expect .rBracket stop rest₁
    let ⟨e, rest₃, h₃⟩ ← parseSuffixes stop (index e i (upTo e.span closing)) rest₂
    return ⟨e, rest₃, by simp only [List.length_cons]; omega⟩
  | ts => .ok ⟨e, ts, Nat.le_refl _⟩
termination_by 8 * ts.length + 1
decreasing_by all_goals (try simp only [List.length_cons] at *); omega

/-- Reads the arguments of a call up to its closing parenthesis, whose range it gives too. A comma may
follow the last argument. -/
def parseArguments (stop : Nat) (ts : List Placed) : Reading (List Expr × Span) ts :=
  match ts with
  | [] => .error ⟨.unexpected none .inArguments, .point stop⟩
  | t :: rest =>
    if Placed.isNext .rParen (t :: rest) then .ok ⟨([], t.span), rest, Placed.length_rest_lt rest⟩
    else do
      let ⟨arg, rest₁, h₁⟩ ← parse stop (t :: rest)
      if Placed.isNext .rParen rest₁ then
        let ⟨closing, rest₂, h₂⟩ ← expect .rParen stop rest₁
        return ⟨([arg], closing), rest₂, by omega⟩
      else
        let ⟨_, rest₂, h₂⟩ ← expect .comma stop rest₁
        let ⟨args, rest₃, h₃⟩ ← parseArguments stop rest₂
        return ⟨(arg :: args.1, args.2), rest₃, by omega⟩
termination_by 8 * ts.length + 6
decreasing_by all_goals (try simp only [List.length_cons] at *); omega

/-- Reads an atom. A parenthesised expression keeps its node and covers its parentheses. -/
def parseAtom (stop : Nat) (ts : List Placed) : Reading Expr ts :=
  match ts with
  | [] => .error ⟨.unexpected none .inExpression, .point stop⟩
  | t :: rest =>
    match ofToken? t with
    | some (.ok e) => .ok ⟨e, rest, Placed.length_rest_lt rest⟩
    | some (.error e) => .error e
    | none =>
      if Placed.isNext .lParen (t :: rest) then do
        let ⟨e, rest₁, h₁⟩ ← parse stop rest
        let ⟨closing, rest₂, h₂⟩ ← expect .rParen stop rest₁
        return ⟨e.withSpan (upTo t.span closing), rest₂, by simp only [List.length_cons]; omega⟩
      else .error ⟨.unexpected (some t.token) .inExpression, t.span⟩
termination_by 8 * ts.length + 1
decreasing_by all_goals (try simp only [List.length_cons] at *); omega

end

def finish {α : Type} (place : Place) (value : α) : List Placed → Except SyntaxError α
  | [] => .ok value
  | t :: _ => .error ⟨.unexpected (some t.token) place, t.span⟩

/-- Reads a whole text that starts at `base` of the source with a reader for its tokens. -/
def readWhole {α : Type} (wanted : Wanted) (place : Place)
    (reader : Nat → (ts : List Placed) → Reading α ts) (text : String) (base : Nat) :
    Except SyntaxError α := do
  let ts ← Placed.ofText text base
  if ts.isEmpty then throw ⟨.nothing wanted, ⟨base, base + Text.byteLength text.toList⟩⟩
  let p ← reader (Placed.endOf base ts) ts
  finish place p.value p.rest

def ofText (text : String) (base : Nat) : Except SyntaxError Expr :=
  readWhole .expression .afterExpression parse text base

end Expr

end Stencil
