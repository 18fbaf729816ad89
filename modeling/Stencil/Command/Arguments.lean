/-!
The command line: one template, options with values, and switches. Options may stand anywhere; after a
double dash everything is taken as it is. Arguments are read in their order up to the first fault or the
first wish for help.
-/
set_option autoImplicit false

namespace Stencil.Command

structure Request where
  template : String
  /-- Variables as `name=value`, in their order. -/
  vars : List String
  varsFile : Option String
  config : Option String
  strict : Bool
  stable : Bool
  output : Option String
deriving DecidableEq, Repr, Inhabited

structure Draft where
  template : Option String
  vars : List String
  varsFile : Option String
  config : Option String
  strict : Bool
  stable : Bool
  output : Option String
deriving DecidableEq, Repr, Inhabited

namespace Draft

def empty : Draft := ⟨none, [], none, none, false, false, none⟩

def once (old : Option String) (path : String) : Option (Option String) :=
  if old.isSome || path.isEmpty then none else some (some path)

def addTemplate (p : Draft) (path : String) : Option Draft := do
  return { p with template := ← once p.template path }

def switch (p : Draft) : String → Option Draft
  | "strict" => if p.strict then none else some { p with strict := true }
  | "stable" => if p.stable then none else some { p with stable := true }
  | _ => none

def option (p : Draft) (name value : String) : Option Draft :=
  match name with
  | "var" => some { p with vars := p.vars ++ [value] }
  | "vars" => do return { p with varsFile := ← once p.varsFile value }
  | "config" => do return { p with config := ← once p.config value }
  | "output" => do return { p with output := ← once p.output value }
  | _ => none

def finish (p : Draft) : Option Request := do
  return ⟨← p.template, p.vars, p.varsFile, p.config, p.strict, p.stable, p.output⟩

end Draft

inductive Argument where
  | plain (text : String)
  | doubleDash
  /-- A long option, with the value after its equals sign. -/
  | long (name : String) (value : Option String)
  | short (letters : List Char)
deriving DecidableEq, Repr, Inhabited

def Argument.ofLong (cs : List Char) : Argument :=
  match cs.dropWhile (· != '=') with
  | [] => .long (String.ofList cs) none
  | _ :: value => .long (String.ofList (cs.takeWhile (· != '='))) (some (String.ofList value))

def Argument.ofText (s : String) : Argument :=
  match s.toList with
  | ['-', '-'] => .doubleDash
  | '-' :: '-' :: cs => .ofLong cs
  | '-' :: c :: cs => .short (c :: cs)
  | _ => .plain s

def optionNames : List String := ["var", "vars", "config", "output"]

inductive Stop where
  | usage
  | help
deriving DecidableEq, Repr, Inhabited

def accepted (p : Option Draft) : Except Stop Draft :=
  match p with
  | some p => .ok p
  | none => .error .usage

namespace Request

def readPlain (p : Draft) : List String → Except Stop Draft
  | [] => .ok p
  | a :: as => do readPlain (← accepted (p.addTemplate a)) as

/-- Reads arguments; `pending` is an option that still needs its value. -/
def readFrom (p : Draft) (pending : Option String) : List String → Except Stop Draft
  | [] => if pending.isSome then .error .usage else .ok p
  | a :: as =>
    match pending, Argument.ofText a with
    | some name, .plain value => do readFrom (← accepted (p.option name value)) none as
    | some _, _ => .error .usage
    | none, .plain path => do readFrom (← accepted (p.addTemplate path)) none as
    | none, .doubleDash => readPlain p as
    | none, .long name (some value) => do readFrom (← accepted (p.option name value)) none as
    | none, .long "help" none => .error .help
    | none, .long name none =>
      if optionNames.contains name then readFrom p (some name) as
      else do readFrom (← accepted (p.switch name)) none as
    | none, .short ['o'] => readFrom p (some "output") as
    | none, .short ('o' :: '=' :: value) => do
      readFrom (← accepted (p.option "output" (String.ofList value))) none as
    | none, .short ('o' :: value) => do
      readFrom (← accepted (p.option "output" (String.ofList value))) none as
    | none, .short ('h' :: _) => .error .help
    | none, .short _ => .error .usage

def ofArgs (args : List String) : Except Stop Request := do
  match (← readFrom .empty none args).finish with
  | some r => .ok r
  | none => .error .usage

def inputs (r : Request) : List String := r.config.toList ++ r.varsFile.toList ++ [r.template]

end Request

end Stencil.Command
