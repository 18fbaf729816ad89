import Stencil.Host.Basic
import Stencil.Value.Compare
set_option autoImplicit false

namespace Stencil.Builtin

def text (w : World) (v : Value) : Except Failure (List Char) :=
  match v with
  | .text s => .ok s.toList
  | v => .error (.mismatch Kind.text.display (v.kind w).display)

def items (w : World) (v : Value) : Except Failure (List Value) :=
  match v with
  | .list vs => .ok vs
  | v => .error (.mismatch "list" (v.kind w).display)

def missing (position : Nat) : Failure := .host ("missing argument " ++ toString (position + 1))

def textArg (w : World) (args : List Value) (position : Nat) : Except Failure (List Char) :=
  match args[position]? with
  | some .null => .ok []
  | some v => text w v
  | none => .error (missing position)

def intArg (w : World) (args : List Value) (position : Nat) : Except Failure Int :=
  match args[position]? with
  | some v =>
    match v.toInt? with
    | some n => .ok n
    | none => .error (.mismatch (Kind.int .i32).display (v.kind w).display)
  | none => .error (missing position)

def ofChars (cs : List Char) : Value := .text (String.ofList cs)

def ofCount (n : Int) : Value := .wrapped n .i32

/-- The part of a text from a position on, of a given length when there is one. -/
def substring (cs : List Char) (start : Int) (length : Option Int) : Except Failure Value :=
  if start < 0 || (cs.length : Int) < start then .error (.indexOutOfRange start cs.length)
  else match length with
    | some n =>
      if n < 0 || (cs.length : Int) < start + n then .error (.indexOutOfRange (start + n) cs.length)
      else .ok (ofChars ((cs.drop start.toNat).take n.toNat))
    | none => .ok (ofChars (cs.drop start.toNat))

def indexOf (needle cs : List Char) : Int :=
  match Text.cut? needle cs with
  | some (before, _) => before.length
  | none => -1

def startsWith (needle cs : List Char) : Bool := (Text.stripWord? needle cs).isSome

def endsWith (needle cs : List Char) : Bool := (Text.stripWord? needle.reverse cs.reverse).isSome

def pureMethod (name : String) (params : List Kind) (returns : Kind)
    (f : World → Value → List Value → Except Failure Value) : Method :=
  ⟨name, params, returns, false, fun v args => .ofWorld fun w => f w v args⟩

def fields (fs : List Field) : Table Field := .ofList (fs.map fun f => (f.name, f))

def textType : HostType :=
  { HostType.named ⟨none, "String"⟩ with
    fields := fields
      [⟨"length", .int .i32, fun w v => do return ofCount (← text w v).length⟩]
    methods :=
      [pureMethod "to_upper" [] .text fun w v _ => do return ofChars (Text.upper (← text w v)),
        pureMethod "to_lower" [] .text fun w v _ => do return ofChars (Text.lower (← text w v)),
        pureMethod "trim" [] .text fun w v _ => do return ofChars (Text.trim Text.isBlank (← text w v)),
        pureMethod "contains" [.text] .bool fun w v args => do
          let cs ← text w v
          return .bool (Text.occurs (← textArg w args 0) cs),
        pureMethod "starts_with" [.text] .bool fun w v args => do
          let cs ← text w v
          return .bool (startsWith (← textArg w args 0) cs),
        pureMethod "ends_with" [.text] .bool fun w v args => do
          let cs ← text w v
          return .bool (endsWith (← textArg w args 0) cs),
        pureMethod "index_of" [.text] (.int .i32) fun w v args => do
          let cs ← text w v
          return ofCount (indexOf (← textArg w args 0) cs),
        pureMethod "replace" [.text, .text] .text fun w v args => do
          let cs ← text w v
          let word ← textArg w args 0
          return ofChars (Text.replaceAll word (← textArg w args 1) cs),
        pureMethod "substring" [.int .i32] .text fun w v args => do
          let cs ← text w v
          substring cs (← intArg w args 0) none,
        pureMethod "substring" [.int .i32, .int .i32] .text fun w v args => do
          let cs ← text w v
          let start ← intArg w args 0
          substring cs start (some (← intArg w args 1)),
        pureMethod "split" [.text] (.list .text) fun w v args => do
          return .list ((Text.splitOn (← textArg w args 0) (← text w v)).map ofChars)] }

def listType : HostType :=
  { HostType.named ⟨none, "List"⟩ with
    fields := fields
      [⟨"length", .int .i32, fun w v => do return ofCount (← items w v).length⟩,
        ⟨"count", .int .i32, fun w v => do return ofCount (← items w v).length⟩,
        ⟨"first", .any, fun w v => do return (← items w v).head?.getD .null⟩,
        ⟨"last", .any, fun w v => do return (← items w v).getLast?.getD .null⟩]
    methods :=
      [pureMethod "contains" [.any] .bool fun w v args => do
          return .bool ((← items w v).any fun item => item.equals w (args.head?.getD .null)),
        pureMethod "join" [.text] .text fun w v args => do
          let separator ← textArg w args 0
          return ofChars (Text.joinWith separator ((← items w v).map fun item => (item.display w).toList))] }

end Stencil.Builtin

namespace Stencil.Host

def describe (h : Host) (w : World) : Kind → Option HostType
  | .object t => some (h.objectType w t)
  | .text => some Builtin.textType
  | .list _ => some Builtin.listType
  | _ => none

/-- Kind of what an iteration over a value of a kind yields; none when it cannot be iterated. -/
def element? (h : Host) (w : World) : Kind → Option Kind
  | .list k => some k
  | .text => some .text
  | .object t => (h.objectType w t).element
  | .any | .null => some .any
  | _ => none

def isDynamic (h : Host) (w : World) : Kind → Bool
  | .object t => (h.objectType w t).isDynamic
  | _ => false

def variableKind? (h : Host) (w : World) (caseSensitive : Bool) (name : String) : Kind → Option Kind
  | .object t => (h.objectType w t).variableKind? caseSensitive name
  | _ => none

end Stencil.Host
