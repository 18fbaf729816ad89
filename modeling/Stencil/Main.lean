import Stencil.Command.Basic
set_option autoImplicit false

namespace Stencil

def readFile? (path : String) : IO (Option String) := do
  try
    return some (← IO.FS.readFile path)
  catch _ => return none

def readFiles : List String → IO (Table String)
  | [] => return .empty
  | path :: paths => do
    let t ← readFiles paths
    match ← readFile? path with
    | some text => return t.set path text
    | none => return t

def fail (e : Command.Error) : IO UInt32 := do
  (← IO.getStderr).putStrLn e.report
  return 1

end Stencil

open Stencil in
def main (args : List String) : IO UInt32 := do
  let inputs := match Command.Request.ofArgs args with
    | .ok r => r.inputs
    | .error _ => []
  let files ← readFiles inputs
  match Command.run files.get? args with
  | .usage =>
    (← IO.getStderr).putStrLn Command.usageText
    return 2
  | .failed e => fail e
  | .printed text =>
    let out ← IO.getStdout
    out.putStr text
    out.flush
    return 0
  | .written path text =>
    try
      IO.FS.writeFile path text
      return 0
    catch _ => fail (.unwritable path)
