import Stencil.Command.Arguments
import Stencil.Command.Context
import Stencil.Command.Help
import Stencil.Engine
import Stencil.Options.Json
set_option autoImplicit false

namespace Stencil.Command

inductive Error where
  | unreadableConfig (path : String)
  | invalidConfig (path : String)
  | unreadableVars (path : String)
  | invalidVars (path : String)
  | varsNoObject (path : String)
  | noValue (pair : String)
  | noName (pair : String)
  | unreadableTemplate (path : String)
  | notRendered (path : String) (cause : EngineError)
  | unwritable (path : String)

namespace Error

def message : Error → String
  | unreadableConfig p => "failed to read config " ++ p
  | invalidConfig p => "invalid config " ++ p
  | unreadableVars p => "failed to read vars " ++ p
  | invalidVars p => "invalid JSON in " ++ p
  | varsNoObject p => p ++ " must hold a JSON object"
  | noValue pair => "expected NAME=VALUE, got '" ++ pair ++ "'"
  | noName pair => "empty variable name in '" ++ pair ++ "'"
  | unreadableTemplate p => "failed to read template " ++ p
  | notRendered p _ => "failed to render " ++ p
  | unwritable p => "failed to write " ++ p

def cause? : Error → Option String
  | notRendered _ c => some c.display
  | _ => none

def indent (text : String) : String :=
  String.ofList ("    ".toList ++ text.toList.flatMap fun c => if c = '\n' then "\n    ".toList else [c])

def report (e : Error) : String :=
  "Error: " ++ e.message ++ match e.cause? with
    | some c => "\n\nCaused by:\n" ++ indent c
    | none => ""

end Error

inductive Outcome where
  | usage
  | failed (e : Error)
  | printed (text : String)
  | written (path text : String)

abbrev Files : Type := String → Option String

namespace Request

def options (r : Request) (files : Files) : Except Error Options := do
  let o ← match r.config with
    | none => pure Options.default
    | some path =>
      match files path with
      | none => throw (.unreadableConfig path)
      | some text =>
        match Options.ofText? text with
        | none => throw (.invalidConfig path)
        | some o => pure o
  return { o with strict := o.strict || r.strict }

def binding (w : World) (pair : String) : Except Error ((String × Value) × World) :=
  match Text.cut? ['='] pair.toList with
  | none => .error (.noValue pair)
  | some (name, raw) =>
    let name := Text.trim Text.isBlank name
    if name.isEmpty then .error (.noName pair)
    else match Json.ofText? (String.ofList raw) with
      | some j =>
        let (v, w) := j.toValue w
        .ok ((String.ofList name, v), w)
      | none => .ok ((String.ofList name, .text (String.ofList raw)), w)

/-- Variables one after another; one that comes again keeps its place. -/
def bindings (w : World) (t : Table Value) : List String → Except Error (Table Value × World)
  | [] => .ok (t, w)
  | pair :: pairs => do
    let ((name, v), w) ← binding w pair
    bindings w (t.set name v) pairs

def fileVariables (r : Request) (files : Files) (w : World) : Except Error (Table Value × World) :=
  match r.varsFile with
  | none => .ok (.empty, w)
  | some path =>
    match files path with
    | none => .error (.unreadableVars path)
    | some text =>
      match Json.ofText? text with
      | none => .error (.invalidVars path)
      | some (.obj members) =>
        let (es, w) := Json.toEntries w members
        .ok (⟨Json.sorted es⟩, w)
      | some _ => .error (.varsNoObject path)

def context (r : Request) (files : Files) : Except Error (Value × World) := do
  let (t, w) ← r.fileVariables files .empty
  let (t, w) ← bindings w t r.vars
  let (w, ref) := w.add (.record t)
  return (.object ref, w)

def render (r : Request) (files : Files) : Except Error String := do
  let o ← r.options files
  let (context, w) ← r.context files
  match files r.template with
  | none => throw (.unreadableTemplate r.template)
  | some source =>
    let e : Engine := { Engine.default with options := o }
    let result := if r.stable then e.renderStable source context w else e.render source context w
    match result.1 with
    | .ok text => return text
    | .error cause => throw (.notRendered r.template cause)

end Request

def run (files : Files) (args : List String) : Outcome :=
  match Request.ofArgs args with
  | .error .usage => .usage
  | .error .help => .printed helpText
  | .ok r =>
    match r.render files with
    | .error e => .failed e
    | .ok text =>
      match r.output with
      | some path => .written path text
      | none => .printed text

end Stencil.Command
