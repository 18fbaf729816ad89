import Stencil.Code
set_option autoImplicit false

namespace Stencil

variable (ρ : Nat → Nat)

mutual

def Code.relocate : Code → Code
  | .const v => .const v
  | .context n => .context n
  | .slot n => .slot (ρ n)
  | .variable frame name kind cs => .variable frame name kind cs
  | .lateMember target name cs strict => .lateMember target.relocate name cs strict
  | .field target f => .field target.relocate f
  | .property target name cs => .property target.relocate name cs
  | .index target position => .index target.relocate position.relocate
  | .unary op operand => .unary op operand.relocate
  | .binary op left right => .binary op left.relocate right.relocate
  | .both left right => .both left.relocate right.relocate
  | .either left right => .either left.relocate right.relocate
  | .coalesce left right kind => .coalesce left.relocate right.relocate kind
  | .choice test yes no => .choice test.relocate yes.relocate no.relocate
  | .toBool c => .toBool c.relocate
  | .toText c => .toText c.relocate
  | .convert c kind => .convert c.relocate kind
  | .lateCall target name args cs strict => .lateCall target.relocate name (Code.relocateAll args) cs strict
  | .method target m args => .method target.relocate m (Code.relocateAll args)
  | .callValue callee name args => .callValue callee.relocate name (Code.relocateAll args)
  | .fragment name params snapshot compute emit args =>
    .fragment name (params.map ρ) (ρ snapshot) (Step.relocateAll compute) (Step.relocateAll emit)
      (Code.relocateAll args)
  | .rendered compute emit => .rendered (Step.relocateAll compute) (Step.relocateAll emit)

def Code.relocateAll : List Code → List Code
  | [] => []
  | c :: cs => c.relocate :: Code.relocateAll cs

def Step.relocate : Step → Step
  | .text s => .text s
  | .emit c => .emit c.relocate
  | .choose test yes no => .choose test.relocate (Step.relocateAll yes) (Step.relocateAll no)
  | .each source body fallback => .each source.relocate (Step.relocateAll body) (Step.relocateAll fallback)
  | .block context body => .block context.relocate (Step.relocateAll body)
  | .bind slots values body => .bind (slots.map ρ) (Code.relocateAll values) (Step.relocateAll body)
  | .setSlot slot c => .setSlot (ρ slot) c.relocate
  | .setVariable frame name c => .setVariable frame name c.relocate
  | .unsetVariable frame name => .unsetVariable frame name
  | .snapshot slot => .snapshot (ρ slot)
  | .assert test message => .assert test.relocate message.relocate
  | .raise message => .raise message
  | .raiseText body => .raiseText (Step.relocateAll body)
  | .passCap passes => .passCap passes
  | .pragma text => .pragma text
  | .transform f body => .transform f (Step.relocateAll body)

def Step.relocateAll : List Step → List Step
  | [] => []
  | s :: ss => s.relocate :: Step.relocateAll ss

end

theorem Step.relocateAll_eq_map (ss : List Step) : Step.relocateAll ρ ss = ss.map (Step.relocate ρ) := by
  induction ss with
  | nil => rw [relocateAll, List.map_nil]
  | cons s ss ih => rw [relocateAll, List.map_cons, ih]

/-! Where every slot stays, so does the code. -/

mutual

theorem Code.relocate_id : (c : Code) → c.relocate id = c
  | .const _ | .context _ | .slot _ | .variable .. => rfl
  | .lateMember c .. | .field c _ | .property c .. | .unary _ c | .toBool c | .toText c | .convert c _ => by
    rw [Code.relocate, Code.relocate_id c]
  | .index a b | .binary _ a b | .both a b | .either a b | .coalesce a b _ => by
    rw [Code.relocate, Code.relocate_id a, Code.relocate_id b]
  | .choice t y n => by rw [Code.relocate, Code.relocate_id t, Code.relocate_id y, Code.relocate_id n]
  | .lateCall c _ args _ _ | .method c _ args | .callValue c _ args => by
    rw [Code.relocate, Code.relocate_id c, Code.relocateAll_id args]
  | .fragment _ params _ compute emit args => by
    rw [Code.relocate, List.map_id, Step.relocateAll_id compute, Step.relocateAll_id emit,
      Code.relocateAll_id args]
    rfl
  | .rendered compute emit => by rw [Code.relocate, Step.relocateAll_id compute, Step.relocateAll_id emit]

theorem Code.relocateAll_id : (cs : List Code) → Code.relocateAll id cs = cs
  | [] => rfl
  | c :: cs => by rw [Code.relocateAll, Code.relocate_id c, Code.relocateAll_id cs]

theorem Step.relocate_id : (s : Step) → s.relocate id = s
  | .text _ | .unsetVariable .. | .snapshot _ | .raise _ | .passCap _ | .pragma _ => rfl
  | .emit c | .setVariable _ _ c => by rw [Step.relocate, Code.relocate_id c]
  | .setSlot _ c => by rw [Step.relocate, Code.relocate_id c]; rfl
  | .choose c a b | .each c a b => by
    rw [Step.relocate, Code.relocate_id c, Step.relocateAll_id a, Step.relocateAll_id b]
  | .block c body => by rw [Step.relocate, Code.relocate_id c, Step.relocateAll_id body]
  | .bind slots values body => by
    rw [Step.relocate, List.map_id, Code.relocateAll_id values, Step.relocateAll_id body]
  | .assert t m => by rw [Step.relocate, Code.relocate_id t, Code.relocate_id m]
  | .raiseText body | .transform _ body => by rw [Step.relocate, Step.relocateAll_id body]

theorem Step.relocateAll_id : (ss : List Step) → Step.relocateAll id ss = ss
  | [] => rfl
  | s :: ss => by rw [Step.relocateAll, Step.relocate_id s, Step.relocateAll_id ss]

end

end Stencil
