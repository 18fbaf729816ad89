import Stencil.Code
import Stencil.Env
import Stencil.Host.Member
import Stencil.Operator.Apply
set_option autoImplicit false

namespace Stencil

def Value.fitted (w : World) (k : Kind) (v : Value) : Except Failure Value :=
  if v.isNull || k.isAny then .ok v else v.convert w k

/-- Turns an unresolved name into the empty text, unless names must resolve. -/
def Flow.lenient (strict : Bool) (f : Flow Value) : Flow Value := fun e =>
  match f e with
  | (.error (.fail (.unresolved n)), e) =>
    if strict then (.error (.fail (.unresolved n)), e) else (.ok (.text ""), e)
  | r => r

def Env.setSlots (e : Env) : List Nat → List Value → Env
  | n :: ns, v :: vs => (e.setSlot n v).setSlots ns vs
  | _, _ => e

/-- The text of two parts run after each other, the first part's text being dropped. -/
def Flow.parts (compute emit : Flow Unit) : Flow String := do
  let _ ← Flow.capture compute
  Flow.capture emit

mutual

def Code.run (h : Host) : Code → Flow Value
  | .const v => pure v
  | .context n => do return (← get).context n
  | .slot n => do return (← get).slot n
  | .variable frame name kind cs => do
    let target := (← get).frame frame
    let found ← Flow.look (h.member cs target name)
    Flow.look fun w => (found.getD .null).fitted w kind
  | .lateMember target name cs strict => do
    let v ← target.run h
    match ← Flow.look (h.member cs v name) with
    | some v => return v
    | none => if strict then throw (.fail (.unresolved name)) else return .text ""
  | .field target f => do
    let v ← target.run h
    if v.isNull then return .null
    Flow.look fun w => f.read w v
  | .property target name cs => do
    let v ← target.run h
    return (← Flow.look (h.member cs v name)).getD .null
  | .index target position => do
    let v ← target.run h
    let i ← position.run h
    Flow.look fun w => Host.index w v i
  | .unary op operand => do
    let v ← operand.run h
    Flow.look fun w => op.apply w v
  | .binary op left right => do
    let l ← left.run h
    let r ← right.run h
    Flow.look fun w => op.apply w l r
  | .both left right => do
    if (← left.run h).truth then return .bool (← right.run h).truth else return .bool false
  | .either left right => do
    if (← left.run h).truth then return .bool true else return .bool (← right.run h).truth
  | .coalesce left right kind => do
    let l ← left.run h
    let v ← if l.isNull then right.run h else pure l
    Flow.look fun w => v.fitted w kind
  | .choice test yes no => do
    if (← test.run h).truth then yes.run h else no.run h
  | .toBool c => do return .bool (← c.run h).truth
  | .toText c => do
    let v ← c.run h
    return .text (v.display (← get).world)
  | .convert c kind => do
    let v ← c.run h
    Flow.look fun w => v.convert w kind
  | .lateCall target name args cs strict => do
    let v ← target.run h
    let vs ← Code.runAll h args
    Flow.lenient strict (Flow.act (h.invoke cs v name vs))
  | .method target m args => do
    let v ← target.run h
    if v.isNull && !m.isStatic then return .null
    let vs ← Code.runAll h args
    Flow.act (m.run v vs)
  | .callValue callee name args => do
    let f ← callee.run h
    if f.isNull then return .null
    let vs ← Code.runAll h args
    Flow.act (h.callValue f name vs)
  | .fragment name params snapshot compute emit args => do
    match (← get).slot snapshot with
    | .list contexts =>
      let vs ← Code.runAll h args
      modify fun e => e.setSlots params vs
      let innermost := contexts.getLast?.getD .null
      let s ← Flow.withContexts contexts
        (Flow.withContext innermost (Flow.parts (Step.runAll h compute) (Step.runAll h emit)))
      return .text s
    | _ => throw (.fail (.notInvocable name "called before its definition ran"))
  | .rendered compute emit => do
    return .text (← Flow.parts (Step.runAll h compute) (Step.runAll h emit))

def Code.runAll (h : Host) : List Code → Flow (List Value)
  | [] => pure []
  | c :: cs => do
    let v ← c.run h
    let vs ← Code.runAll h cs
    return v :: vs

def Step.run (h : Host) : Step → Flow Unit
  | .text s => Flow.write s
  | .emit c => do
    let v ← c.run h
    Flow.write (v.display (← get).world)
  | .choose test yes no => do
    if (← test.run h).truth then Step.runAll h yes else Step.runAll h no
  | .each source body fallback => do
    let v ← source.run h
    let items ← Flow.look v.elements
    if items.isEmpty then Step.runAll h fallback
    else Flow.each (fun item => Flow.withContext item (Step.runAll h body)) items
  | .block context body => do
    let v ← context.run h
    Flow.withContext v (Step.runAll h body)
  | .bind slots values body => do
    let vs ← Code.runAll h values
    modify fun e => e.setSlots slots vs
    Flow.withContext ((← get).context 0) (Step.runAll h body)
  | .setSlot slot c => do
    let v ← c.run h
    modify fun e => e.setSlot slot v
  | .setVariable frame name c => do
    let v ← c.run h
    modify fun e => match e.frame frame with
      | .object ref => { e with world := e.world.setVariable ref name v }
      | _ => e
  | .unsetVariable frame name => modify fun e => match e.frame frame with
      | .object ref => { e with world := e.world.unsetVariable ref name }
      | _ => e
  | .snapshot slot => modify fun e => e.setSlot slot (.list e.snapshot)
  | .assert test message => do
    if (← test.run h).truth then return ()
    let m ← message.run h
    throw (.fail (.assertion (m.display (← get).world)))
  | .raise message => throw (.fail (.raised message))
  | .raiseText body => do
    let s ← Flow.capture (Step.runAll h body)
    throw (.fail (.raised s))
  | .passCap n => modify fun e => e.requestPasses n
  | .pragma text => do
    match h.pragma with
    | none => return ()
    | some listen =>
      let (stop, w) := listen text (← get).world
      modify fun e => { e with world := w }
      if stop then throw .stop
  | .transform f body => do
    let s ← Flow.capture (Step.runAll h body)
    Flow.write (f s)

def Step.runAll (h : Host) : List Step → Flow Unit
  | [] => pure ()
  | s :: ss => do
    s.run h
    Step.runAll h ss

end

namespace Typed

def evaluate (t : Typed) (h : Host) (context : Value) (w : World) : Except Failure Value × World :=
  match t.code.run h (Env.init context 0 w) with
  | (.ok v, e) => (.ok v, e.world)
  | (.error .stop, e) => (.ok .null, e.world)
  | (.error (.fail f), e) => (.error f, e.world)

end Typed

end Stencil
