import Stencil.Failure
set_option autoImplicit false

namespace Stencil

structure Env where
  /-- The innermost context first. -/
  contexts : List Value
  slots : Array Value
  out : String
  /-- Open capture buffers, the innermost first. -/
  captures : List String
  passCap : Option Nat
  world : World
deriving Inhabited

inductive Halt where
  | stop
  | fail (f : Failure)
deriving DecidableEq, Repr, Inhabited

abbrev Flow (α : Type) : Type := ExceptT Halt (StateM Env) α

namespace Env

def init (root : Value) (slots : Nat) (w : World) : Env :=
  ⟨[root], Array.replicate slots .null, "", [], none, w⟩

def context (e : Env) (n : Nat) : Value := e.contexts.getD n .null

def depth (e : Env) : Nat := e.contexts.length

/-- The context of a frame, counted from the outermost; null when there is none. -/
def frame (e : Env) (i : Nat) : Value := e.contexts.reverse.getD i .null

def slot (e : Env) (n : Nat) : Value := e.slots.getD n .null

/-- Fills a slot, making room for it where needed. -/
def setSlot (e : Env) (n : Nat) (v : Value) : Env :=
  let slots := if n < e.slots.size then e.slots else e.slots ++ Array.replicate (n + 1 - e.slots.size) .null
  { e with slots := slots.setIfInBounds n v }

/-- Contexts from the outermost in. -/
def snapshot (e : Env) : List Value := e.contexts.reverse

def write (e : Env) (s : String) : Env :=
  match e.captures with
  | b :: bs => { e with captures := (b ++ s) :: bs }
  | [] => { e with out := e.out ++ s }

def requestPasses (e : Env) (n : Nat) : Env :=
  { e with passCap := some (match e.passCap with
      | some m => min m n
      | none => n) }

end Env

namespace Flow

variable {α : Type}

def look (f : World → Except Failure α) : Flow α := fun e =>
  match f e.world with
  | .ok a => (.ok a, e)
  | .error f => (.error (.fail f), e)

def act (a : Act α) : Flow α := fun e =>
  match a e.world with
  | (.ok v, w) => (.ok v, { e with world := w })
  | (.error f, w) => (.error (.fail f), { e with world := w })

def withContext (v : Value) (f : Flow α) : Flow α := fun e =>
  let (r, e) := f { e with contexts := v :: e.contexts }
  (r, { e with contexts := e.contexts.drop 1 })

/-- Runs in other contexts, given from the outermost in. -/
def withContexts (vs : List Value) (f : Flow α) : Flow α := fun e =>
  let saved := e.contexts
  let (r, e) := f { e with contexts := vs.reverse }
  (r, { e with contexts := saved })

def capture (f : Flow Unit) : Flow String := fun e =>
  let (r, e) := f { e with captures := "" :: e.captures }
  (r.map fun _ => e.captures.headD "", { e with captures := e.captures.drop 1 })

def write (s : String) : Flow Unit := modify fun e => e.write s

def each (f : Value → Flow Unit) : List Value → Flow Unit
  | [] => pure ()
  | v :: vs => do
    f v
    each f vs

end Flow

end Stencil
