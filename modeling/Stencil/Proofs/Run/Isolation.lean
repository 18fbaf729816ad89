import Stencil.Proofs.Run.Relocation
set_option autoImplicit false

namespace Stencil

variable (h : Host)

theorem Code.wrote_runAll (cs : List Code) (e : Env) : e.Wrote "" (Code.runAll h cs e).2 := by
  obtain ⟨text, htext, -, -, hwrote, -⟩ :=
    Code.follows_relocateAll h Function.injective_id cs e e ⟨⟨fun _ => rfl, rfl⟩, rfl⟩
  rw [htext.resolve_left id] at hwrote
  exact hwrote

theorem Fragment.follows_body (f : Fragment) (contexts : List Value) {e e' : Env} (he : e.Shares id e') :
    (f.body h contexts e').1 = (f.body h contexts e).1 ∧
      (f.body h contexts e).2.Shares id (f.body h contexts e').2 ∧
      e.Wrote "" (f.body h contexts e).2 ∧ e'.Wrote "" (f.body h contexts e').2 := by
  have hcompute := Step.follows_relocateAll h Function.injective_id f.compute
  have hemit := Step.follows_relocateAll h Function.injective_id f.emit
  rw [Step.relocateAll_id] at hcompute hemit
  have hparts : Flow.Follows id False (Flow.parts (Step.runAll h f.compute) (Step.runAll h f.emit))
      (Flow.parts (Step.runAll h f.compute) (Step.runAll h f.emit)) := .parts hcompute hemit
  obtain ⟨text, htext, hresult, hshares, hwrote, hwrote'⟩ :=
    (hparts.withContext (contexts.getLast?.getD .null)).elsewhere contexts he
  rw [htext.resolve_left id] at hwrote hwrote'
  exact ⟨hresult, hshares, hwrote, hwrote'⟩

/-- An environment that has the output, the open buffers and the contexts of another. -/
structure Env.Untouched (e e' : Env) : Prop where
  out : e'.out = e.out
  captures : e'.captures = e.captures
  contexts : e'.contexts = e.contexts

theorem Env.Wrote.untouched {e e' : Env} (hwrote : e.Wrote "" e') : e.Untouched e' :=
  ⟨hwrote.silent.2, hwrote.silent.1, hwrote.contexts⟩

/-- Two calls that end in the same way, with the same effects, and leave alone what is around them. -/
structure Fragment.Agrees (e e' : Env) (p p' : Except Halt Value × Env) : Prop where
  result : ∃ r : Except Halt String, p.1 = r.map Value.text ∧ p'.1 = r.map Value.text
  shares : p.2.Shares id p'.2
  untouched : e.Untouched p.2
  untouched' : e'.Untouched p'.2

/-- A call whose arguments are there: the parameters take them, and the body runs in its own contexts. -/
def Fragment.filled (f : Fragment) (contexts vs : List Value) : Flow Value := do
  modify fun e => e.setSlots f.params vs
  return .text (← f.body h contexts)

theorem Fragment.filled_apply (f : Fragment) (contexts vs : List Value) (e : Env) :
    f.filled h contexts vs e = ((f.body h contexts (e.setSlots f.params vs)).1.map Value.text,
      (f.body h contexts (e.setSlots f.params vs)).2) := by
  show (f.body h contexts >>= fun s => pure (Value.text s)) (e.setSlots f.params vs) = _
  rw [Flow.bind_apply]
  cases f.body h contexts (e.setSlots f.params vs) with
  | mk r e₂ => cases r <;> rfl

theorem Fragment.agrees_filled (f : Fragment) (contexts vs : List Value) {e e' e₁ e₁' : Env}
    (hshares : e₁.Shares id e₁') (hwrote : e.Wrote "" e₁) (hwrote' : e'.Wrote "" e₁') :
    Fragment.Agrees e e' (f.filled h contexts vs e₁) (f.filled h contexts vs e₁') := by
  have hset := hshares.setSlots Function.injective_id f.params vs
  rw [List.map_id] at hset
  obtain ⟨hresult, hshares₂, hwrote₂, hwrote₂'⟩ := f.follows_body h contexts hset
  have hwrote₃ := (hwrote.trans (e₁.wrote_setSlots f.params vs)).trans hwrote₂
  have hwrote₃' := (hwrote'.trans (e₁'.wrote_setSlots f.params vs)).trans hwrote₂'
  rw [filled_apply, filled_apply, hresult]
  exact ⟨⟨_, rfl, rfl⟩, hshares₂, hwrote₃.untouched, hwrote₃'.untouched⟩

def Fragment.called (f : Fragment) (args : List Code) : Code :=
  .fragment f.name f.params f.snapshot f.compute f.emit args

theorem Fragment.run_called (f : Fragment) (args : List Code) (e : Env) :
    (f.called args).run h e = f.call h args (e.slot f.snapshot) e :=
  rfl

theorem Fragment.call_list (f : Fragment) (args : List Code) (contexts : List Value) :
    f.call h args (.list contexts) = Code.runAll h args >>= f.filled h contexts :=
  rfl

/-- In environments with the same slots and the same world, and with any contexts, buffers and output, a call
whose arguments give the same values and have the same effects gives the same text or ends in the same way. It
has the same effects, writes nothing, and gives each environment its own contexts back. -/
theorem Fragment.call_depends_on_definition (f : Fragment) (args : List Code) (e e' : Env)
    (hslots : ∀ n, e'.slot n = e.slot n) (hworld : e'.world = e.world)
    (hargs : (Code.runAll h args e').1 = (Code.runAll h args e).1)
    (hargSlots : ∀ n, (Code.runAll h args e').2.slot n = (Code.runAll h args e).2.slot n)
    (hargWorld : (Code.runAll h args e').2.world = (Code.runAll h args e).2.world) :
    (∃ r : Except Halt String, ((f.called args).run h e).1 = r.map Value.text ∧
      ((f.called args).run h e').1 = r.map Value.text) ∧
    (∀ n, ((f.called args).run h e').2.slot n = ((f.called args).run h e).2.slot n) ∧
    ((f.called args).run h e').2.world = ((f.called args).run h e).2.world ∧
    e.Untouched ((f.called args).run h e).2 ∧ e'.Untouched ((f.called args).run h e').2 := by
  have hagrees : Fragment.Agrees e e' ((f.called args).run h e) ((f.called args).run h e') := by
    rw [run_called, run_called, hslots f.snapshot]
    cases e.slot f.snapshot with
    | list contexts =>
      have hwrote := Code.wrote_runAll h args e
      have hwrote' := Code.wrote_runAll h args e'
      rw [call_list, Flow.bind_apply, Flow.bind_apply]
      revert hargs hargSlots hargWorld hwrote hwrote'
      generalize Code.runAll h args e = p
      generalize Code.runAll h args e' = p'
      obtain ⟨r, e₁⟩ := p
      obtain ⟨r', e₁'⟩ := p'
      rintro rfl hargSlots hargWorld hwrote hwrote'
      cases r' with
      | error halt =>
        exact ⟨⟨.error halt, rfl, rfl⟩, ⟨hargSlots, hargWorld⟩, hwrote.untouched, hwrote'.untouched⟩
      | ok vs => exact f.agrees_filled h contexts vs ⟨hargSlots, hargWorld⟩ hwrote hwrote'
    | _ => exact ⟨⟨.error _, rfl, rfl⟩, ⟨hslots, hworld⟩, ⟨rfl, rfl, rfl⟩, ⟨rfl, rfl, rfl⟩⟩
  exact ⟨hagrees.result, hagrees.shares.slots, hagrees.shares.world, hagrees.untouched, hagrees.untouched'⟩

/-- A fragment that greets its parameter from where it was defined, called at the top of the output and inside a
capture in another context. -/
theorem Fragment.call_depends_on_definition_greeting :
    let greet : Fragment := ⟨"greet", [1], 0, [.text "?"], [.emit (.slot 1), .text "@", .emit (.context 0)]⟩
    let called := greet.called [.const (.text "hi")]
    let outside : Env := ⟨[.null], #[.list [.text "home"], .null], "before ", [], none, .empty⟩
    let inside : Env := ⟨[.text "yard", .null], #[.list [.text "home"], .null], "", ["kept"], some 3, .empty⟩
    (called.run .empty outside).1 = .ok (.text "hi@home") ∧
      (called.run .empty inside).1 = .ok (.text "hi@home") ∧
      outside.Untouched (called.run .empty outside).2 ∧ inside.Untouched (called.run .empty inside).2 := by
  intro greet called outside inside
  obtain ⟨⟨r, hr, hr'⟩, -, -, huntouched, huntouched'⟩ :=
    greet.call_depends_on_definition .empty [.const (.text "hi")] outside inside (fun _ => rfl) rfl rfl
      (fun _ => rfl) rfl
  have hinside : (called.run .empty inside).1 = .ok (.text "hi@home") := by with_unfolding_all rfl
  exact ⟨hr.trans (hr'.symm.trans hinside), hinside, huntouched, huntouched'⟩

end Stencil
