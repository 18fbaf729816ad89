import Stencil.Proofs.Code.Relocation
import Stencil.Proofs.Run.Frames
/-!
Code whose slots are elsewhere, run where they are. What a run sees of an environment is its contexts, its slots
and the world; two runs that see the same give the same result and write the same text, each to its own output.
-/
set_option autoImplicit false

namespace Stencil

namespace Env

/-- Environments with the same values in their slots, which may be elsewhere, and with the same world. -/
structure Shares (ρ : Nat → Nat) (e e' : Env) : Prop where
  slots : ∀ n, e'.slot (ρ n) = e.slot n
  world : e'.world = e.world

/-- Environments that look the same to code and to the code with its slots elsewhere. The output, the buffers
and the passes asked for may differ in any way. -/
structure Relocated (ρ : Nat → Nat) (e e' : Env) : Prop extends Shares ρ e e' where
  contexts : e'.contexts = e.contexts

/-- What a run leaves that wrote a text: the contexts are as they were, and the text stands at the end of the
innermost buffer, or of the output when no buffer is open. -/
structure Wrote (text : String) (e e' : Env) : Prop where
  contexts : e'.contexts = e.contexts
  captures : e'.captures = (e.write text).captures
  out : e'.out = (e.write text).out

theorem world_write (e : Env) (s : String) : (e.write s).world = e.world := by
  unfold write
  split <;> rfl

variable {ρ : Nat → Nat} {e e' e₁ e₁' : Env} {s t : String}

namespace Wrote

theorem nothing (hcontexts : e'.contexts = e.contexts) (hcaptures : e'.captures = e.captures)
    (hout : e'.out = e.out) : e.Wrote "" e' :=
  ⟨hcontexts, by rw [write_empty, hcaptures], by rw [write_empty, hout]⟩

theorem trans (h : e.Wrote s e₁) (h' : e₁.Wrote t e') : e.Wrote (s ++ t) e' := by
  obtain ⟨hcaptures, hout⟩ := write_congr h.captures h.out t
  rw [write_write] at hcaptures hout
  exact ⟨h'.contexts.trans h.contexts, h'.captures.trans hcaptures, h'.out.trans hout⟩

theorem within {cs cs' : List Value} (h : Wrote s { e with contexts := cs } e') (hcs : cs' = e.contexts) :
    e.Wrote s { e' with contexts := cs' } := by
  have hwrite : (Env.write { e with contexts := cs } s).captures = (e.write s).captures ∧
      (Env.write { e with contexts := cs } s).out = (e.write s).out :=
    write_congr (by rfl) (by rfl) s
  exact ⟨hcs, h.captures.trans hwrite.1, h.out.trans hwrite.2⟩

theorem silent (h : e.Wrote "" e') : e'.captures = e.captures ∧ e'.out = e.out := by
  have hcaptures := h.captures
  have hout := h.out
  rw [write_empty] at hcaptures hout
  exact ⟨hcaptures, hout⟩

end Wrote

theorem Shares.inContexts (h : e.Shares ρ e') (vs : List Value) :
    Relocated ρ { e with contexts := vs } { e' with contexts := vs } :=
  ⟨⟨h.slots, h.world⟩, rfl⟩

namespace Relocated

theorem context (h : e.Relocated ρ e') (n : Nat) : e'.context n = e.context n := by
  unfold Env.context
  rw [h.contexts]

theorem frame (h : e.Relocated ρ e') (n : Nat) : e'.frame n = e.frame n := by
  unfold Env.frame
  rw [h.contexts]

theorem snapshot (h : e.Relocated ρ e') : e'.snapshot = e.snapshot := by
  unfold Env.snapshot
  rw [h.contexts]

theorem of_same (h : e.Relocated ρ e') (hcontexts : e₁.contexts = e.contexts) (hslots : e₁.slots = e.slots)
    (hworld : e₁.world = e.world) (hcontexts' : e₁'.contexts = e'.contexts) (hslots' : e₁'.slots = e'.slots)
    (hworld' : e₁'.world = e'.world) : e₁.Relocated ρ e₁' := by
  refine ⟨⟨fun n => ?_, ?_⟩, ?_⟩
  · have hn := h.slots n
    unfold slot at hn ⊢
    rw [hslots', hslots, hn]
  · rw [hworld', hworld, h.world]
  · rw [hcontexts', hcontexts, h.contexts]

theorem inWorld (h : e.Relocated ρ e') (w : World) : Relocated ρ { e with world := w } { e' with world := w } :=
  ⟨⟨h.slots, rfl⟩, h.contexts⟩

theorem write (h : e.Relocated ρ e') (s t : String) : (e.write s).Relocated ρ (e'.write t) :=
  h.of_same (contexts_write e s) (slots_write e s) (world_write e s) (contexts_write e' t) (slots_write e' t)
    (world_write e' t)

end Relocated

namespace Shares

theorem setSlot (hρ : ρ.Injective) (h : e.Shares ρ e') (n : Nat) (v : Value) :
    (e.setSlot n v).Shares ρ (e'.setSlot (ρ n) v) := by
  refine ⟨fun m => ?_, h.world⟩
  by_cases hnm : n = m
  · subst hnm
    rw [slot_setSlot, slot_setSlot]
  · rw [slot_setSlot_ne e hnm, slot_setSlot_ne e' (fun heq => hnm (hρ heq)), h.slots]

theorem setSlots (hρ : ρ.Injective) (h : e.Shares ρ e') (ns : List Nat) (vs : List Value) :
    (e.setSlots ns vs).Shares ρ (e'.setSlots (ns.map ρ) vs) := by
  induction ns generalizing e e' vs with
  | nil => exact h
  | cons n ns ih =>
    cases vs with
    | nil => exact h
    | cons v vs => exact ih (h.setSlot hρ n v) vs

end Shares

theorem wrote_setSlots (e : Env) (ns : List Nat) (vs : List Value) : e.Wrote "" (e.setSlots ns vs) := by
  induction ns generalizing e vs with
  | nil => exact .nothing rfl rfl rfl
  | cons n ns ih =>
    cases vs with
    | nil => exact .nothing rfl rfl rfl
    | cons v vs =>
      have hset : e.Wrote "" (e.setSlot n v) := .nothing rfl rfl rfl
      exact hset.trans (ih (e.setSlot n v) vs)

end Env

theorem Flow.capture_apply (x : Flow Unit) (e : Env) :
    capture x e = ((x { e with captures := "" :: e.captures }).1.map
        fun _ => (x { e with captures := "" :: e.captures }).2.captures.headD "",
      { (x { e with captures := "" :: e.captures }).2 with
        captures := (x { e with captures := "" :: e.captures }).2.captures.drop 1 }) :=
  rfl

/-- Two runs that give the same result and write the same text wherever their environments look the same, and
leave them looking the same. Runs that may not write, write nothing. -/
def Flow.Follows {α : Type} (ρ : Nat → Nat) (writes : Prop) (x y : Flow α) : Prop :=
  ∀ e e', e.Relocated ρ e' → ∃ text, (writes ∨ text = "") ∧ (y e').1 = (x e).1 ∧
    (x e).2.Relocated ρ (y e').2 ∧ e.Wrote text (x e).2 ∧ e'.Wrote text (y e').2

namespace Flow.Follows

variable {α β : Type} {ρ : Nat → Nat} {writes : Prop} {x y : Flow α}

theorem quiet (h : ∀ e e', e.Relocated ρ e' → ∃ w, (y e').1 = (x e).1 ∧ (x e).2 = { e with world := w } ∧
    (y e').2 = { e' with world := w }) : Follows ρ writes x y := by
  intro e e' he
  obtain ⟨w, hresult, hx, hy⟩ := h e e' he
  refine ⟨"", .inr rfl, hresult, ?_, ?_, ?_⟩
  · rw [hx, hy]
    exact he.inWorld w
  · rw [hx]
    exact .nothing rfl rfl rfl
  · rw [hy]
    exact .nothing rfl rfl rfl

theorem value (a : α) : Follows ρ writes (pure a) (pure a) :=
  quiet fun e _ he => ⟨e.world, rfl, rfl, by rw [← he.world]; rfl⟩

theorem halt (r : Halt) : Follows ρ writes (throw r : Flow α) (throw r) :=
  quiet fun e _ he => ⟨e.world, rfl, rfl, by rw [← he.world]; rfl⟩

theorem bind {f g : α → Flow β} (hx : Follows ρ writes x y) (hf : ∀ a, Follows ρ writes (f a) (g a)) :
    Follows ρ writes (x >>= f) (y >>= g) := by
  intro e e' he
  obtain ⟨s, hs, hresult, hlook, hwrote, hwrote'⟩ := hx e e' he
  rw [bind_apply, bind_apply]
  revert hresult hlook hwrote hwrote'
  generalize x e = p
  generalize y e' = p'
  obtain ⟨r, e₁⟩ := p
  obtain ⟨r', e₁'⟩ := p'
  rintro rfl hlook hwrote hwrote'
  cases r' with
  | error r => exact ⟨s, hs, rfl, hlook, hwrote, hwrote'⟩
  | ok a =>
    obtain ⟨t, ht, hresult, hlook', hwrote₁, hwrote₁'⟩ := hf a e₁ e₁' hlook
    refine ⟨s ++ t, ?_, hresult, hlook', hwrote.trans hwrote₁, hwrote'.trans hwrote₁'⟩
    rcases hs with hs | rfl
    · exact .inl hs
    · rcases ht with ht | rfl
      · exact .inl ht
      · exact .inr rfl

theorem reading {f g : Env → Flow α} (h : ∀ e e', e.Relocated ρ e' → Follows ρ writes (f e) (g e')) :
    Follows ρ writes (get >>= f) (get >>= g) := fun e e' he => h e e' he e e' he

theorem loud (h : Follows ρ False x y) : Follows ρ writes x y := by
  intro e e' he
  obtain ⟨text, htext, hrest⟩ := h e e' he
  exact ⟨text, .inr (htext.resolve_left id), hrest⟩

theorem look (f : World → Except Failure α) : Follows ρ writes (look f) (look f) := by
  refine quiet fun e e' he => ⟨e.world, ?_⟩
  unfold Flow.look
  rw [he.world]
  cases f e.world with
  | ok a => exact ⟨rfl, rfl, by rw [← he.world]⟩
  | error r => exact ⟨rfl, rfl, by rw [← he.world]⟩

theorem act (a : Act α) : Follows ρ writes (act a) (act a) := by
  refine quiet fun e e' he => ⟨(a e.world).2, ?_⟩
  unfold Flow.act
  rw [he.world]
  cases a e.world with
  | mk r w => cases r <;> exact ⟨rfl, rfl, rfl⟩

theorem lenient (strict : Bool) (a : Act Value) :
    Follows ρ writes (lenient strict (Flow.act a)) (lenient strict (Flow.act a)) := by
  refine quiet fun e e' he => ⟨(a e.world).2, ?_⟩
  unfold Flow.lenient Flow.act
  rw [he.world]
  cases a e.world with
  | mk r w =>
    cases r with
    | ok v => exact ⟨rfl, rfl, rfl⟩
    | error f =>
      cases f with
      | unresolved n => cases strict <;> exact ⟨rfl, rfl, rfl⟩
      | _ => exact ⟨rfl, rfl, rfl⟩

theorem change {f g : Env → Env}
    (h : ∀ e e', e.Relocated ρ e' → (f e).Relocated ρ (g e') ∧ e.Wrote "" (f e) ∧ e'.Wrote "" (g e')) :
    Follows ρ writes (modify f) (modify g) :=
  fun e e' he => ⟨"", .inr rfl, rfl, h e e' he⟩

theorem fill (hρ : ρ.Injective) (ns : List Nat) (vs : List Value) :
    Follows ρ writes (modify fun e => e.setSlots ns vs) (modify fun e => e.setSlots (ns.map ρ) vs) :=
  change fun e e' he =>
    have hwrote := e.wrote_setSlots ns vs
    have hwrote' := e'.wrote_setSlots (ns.map ρ) vs
    ⟨⟨he.setSlots hρ ns vs, hwrote'.contexts.trans (he.contexts.trans hwrote.contexts.symm)⟩, hwrote, hwrote'⟩

theorem world {f : Env → World} (hf : ∀ e e', e.Relocated ρ e' → f e' = f e) :
    Follows ρ writes (modify fun e => { e with world := f e }) (modify fun e => { e with world := f e }) := by
  refine change fun e e' he => ⟨?_, .nothing rfl rfl rfl, .nothing rfl rfl rfl⟩
  rw [hf e e' he]
  exact he.inWorld (f e)

theorem inFrame (frame : Nat) (f : World → Nat → World) :
    Follows ρ writes (modify fun e => match e.frame frame with
        | .object ref => { e with world := f e.world ref }
        | _ => e)
      (modify fun e => match e.frame frame with
        | .object ref => { e with world := f e.world ref }
        | _ => e) := by
  refine change fun e e' he => ?_
  rw [he.frame frame]
  cases e.frame frame with
  | object ref =>
    refine ⟨?_, .nothing rfl rfl rfl, .nothing rfl rfl rfl⟩
    dsimp only
    rw [he.world]
    exact he.inWorld (f e.world ref)
  | _ => exact ⟨he, .nothing rfl rfl rfl, .nothing rfl rfl rfl⟩

theorem write (s : String) : Follows ρ True (write s) (write s) := fun e e' he =>
  ⟨s, .inl trivial, rfl, he.write s s, ⟨e.contexts_write s, rfl, rfl⟩, ⟨e'.contexts_write s, rfl, rfl⟩⟩

theorem withContext (v : Value) (h : Follows ρ writes x y) :
    Follows ρ writes (withContext v x) (withContext v y) := by
  intro e e' he
  have hinner : Env.Relocated ρ { e with contexts := v :: e.contexts } { e' with contexts := v :: e'.contexts } := by
    rw [he.contexts]
    exact he.toShares.inContexts (v :: e.contexts)
  obtain ⟨text, htext, hresult, hlook, hwrote, hwrote'⟩ := h _ _ hinner
  have hcontexts : (x { e with contexts := v :: e.contexts }).2.contexts.drop 1 = e.contexts := by
    rw [hwrote.contexts]
    rfl
  have hcontexts' : (y { e' with contexts := v :: e'.contexts }).2.contexts.drop 1 = e'.contexts := by
    rw [hwrote'.contexts]
    rfl
  refine ⟨text, htext, hresult, ⟨⟨hlook.slots, hlook.world⟩, ?_⟩, hwrote.within hcontexts,
    hwrote'.within hcontexts'⟩
  exact hcontexts'.trans (he.contexts.trans hcontexts.symm)

theorem elsewhere (vs : List Value) (h : Follows ρ writes x y) {e e' : Env} (he : e.Shares ρ e') :
    ∃ text, (writes ∨ text = "") ∧ (withContexts vs y e').1 = (withContexts vs x e).1 ∧
      (withContexts vs x e).2.Shares ρ (withContexts vs y e').2 ∧ e.Wrote text (withContexts vs x e).2 ∧
      e'.Wrote text (withContexts vs y e').2 := by
  obtain ⟨text, htext, hresult, hlook, hwrote, hwrote'⟩ := h _ _ (he.inContexts vs.reverse)
  exact ⟨text, htext, hresult, ⟨hlook.slots, hlook.world⟩, hwrote.within rfl, hwrote'.within rfl⟩

theorem withContexts (vs : List Value) (h : Follows ρ writes x y) :
    Follows ρ writes (withContexts vs x) (withContexts vs y) := by
  intro e e' he
  obtain ⟨text, htext, hresult, hshares, hwrote, hwrote'⟩ := h.elsewhere vs he.toShares
  exact ⟨text, htext, hresult, ⟨hshares, he.contexts⟩, hwrote, hwrote'⟩

/-- What is written into a buffer of its own is the same in both runs, and nothing else is written. -/
theorem capture {x y : Flow Unit} (h : Follows ρ True x y) : Follows ρ writes (capture x) (capture y) := by
  intro e e' he
  have hinner : Env.Relocated ρ { e with captures := "" :: e.captures } { e' with captures := "" :: e'.captures } :=
    he.of_same rfl rfl rfl rfl rfl rfl
  obtain ⟨text, -, hresult, hlook, hwrote, hwrote'⟩ := h _ _ hinner
  refine ⟨"", .inr rfl, ?_, hlook.of_same rfl rfl rfl rfl rfl rfl, ?_, ?_⟩
  · rw [capture_apply, capture_apply, hresult, hwrote.captures, hwrote'.captures]
    rfl
  · refine .nothing hwrote.contexts ?_ hwrote.out
    rw [capture_apply, hwrote.captures]
    rfl
  · refine .nothing hwrote'.contexts ?_ hwrote'.out
    rw [capture_apply, hwrote'.captures]
    rfl

theorem parts {x y x' y' : Flow Unit} (hx : Follows ρ True x x') (hy : Follows ρ True y y') :
    Follows ρ writes (parts x y) (parts x' y') :=
  hx.capture.bind fun _ => hy.capture

theorem each {f g : Value → Flow Unit} (h : ∀ v, Follows ρ writes (f v) (g v)) (vs : List Value) :
    Follows ρ writes (each f vs) (each g vs) := by
  induction vs with
  | nil => exact .value ()
  | cons v vs ih => exact (h v).bind fun _ => ih

end Flow.Follows

section

variable {ρ : Nat → Nat} (h : Host)

mutual

theorem Code.follows_relocate (hρ : ρ.Injective) : (c : Code) → Flow.Follows ρ False (c.run h) ((c.relocate ρ).run h)
  | .const v => .value v
  | .context n => .reading fun _ _ he => by rw [he.context n]; exact .value _
  | .slot n => .reading fun _ _ he => by rw [he.slots n]; exact .value _
  | .variable frame name kind cs => .reading fun _ _ he => by
    rw [he.frame frame]
    exact .bind (.look _) fun _ => .look _
  | .lateMember target name cs strict => by
    refine .bind (Code.follows_relocate hρ target) fun v => .bind (.look _) fun found => ?_
    cases found with
    | some u => exact .value u
    | none =>
      dsimp only
      split
      · exact .halt _
      · exact .value _
  | .field target f => by
    refine .bind (Code.follows_relocate hρ target) fun v => ?_
    split
    · exact .value _
    · exact .look _
  | .property target name cs => .bind (Code.follows_relocate hρ target) fun _ => .bind (.look _) fun _ => .value _
  | .index target position =>
    .bind (Code.follows_relocate hρ target) fun _ => .bind (Code.follows_relocate hρ position) fun _ => .look _
  | .unary op operand => .bind (Code.follows_relocate hρ operand) fun _ => .look _
  | .binary op left right =>
    .bind (Code.follows_relocate hρ left) fun _ => .bind (Code.follows_relocate hρ right) fun _ => .look _
  | .both left right => by
    refine .bind (Code.follows_relocate hρ left) fun v => ?_
    split
    · exact .bind (Code.follows_relocate hρ right) fun _ => .value _
    · exact .value _
  | .either left right => by
    refine .bind (Code.follows_relocate hρ left) fun v => ?_
    split
    · exact .value _
    · exact .bind (Code.follows_relocate hρ right) fun _ => .value _
  | .coalesce left right kind => by
    refine .bind (Code.follows_relocate hρ left) fun v => ?_
    dsimp only
    split
    · exact .bind (Code.follows_relocate hρ right) fun _ => .look _
    · exact .bind (.value v) fun _ => .look _
  | .choice test yes no => by
    refine .bind (Code.follows_relocate hρ test) fun v => ?_
    split
    · exact Code.follows_relocate hρ yes
    · exact Code.follows_relocate hρ no
  | .toBool c => .bind (Code.follows_relocate hρ c) fun _ => .value _
  | .toText c => .bind (Code.follows_relocate hρ c) fun _ => .reading fun _ _ he => by rw [he.world]; exact .value _
  | .convert c kind => .bind (Code.follows_relocate hρ c) fun _ => .look _
  | .lateCall target name args cs strict =>
    .bind (Code.follows_relocate hρ target) fun _ => .bind (Code.follows_relocateAll hρ args) fun _ => .lenient _ _
  | .method target m args => by
    refine .bind (Code.follows_relocate hρ target) fun v => ?_
    split
    · exact .value _
    · exact .bind (Code.follows_relocateAll hρ args) fun _ => .act _
  | .callValue callee name args => by
    refine .bind (Code.follows_relocate hρ callee) fun v => ?_
    split
    · exact .value _
    · exact .bind (Code.follows_relocateAll hρ args) fun _ => .act _
  | .fragment name params snapshot compute emit args => by
    refine .reading fun e e' he => ?_
    rw [he.slots snapshot]
    cases e.slot snapshot with
    | list contexts =>
      refine .bind (Code.follows_relocateAll hρ args) fun vs => .bind (.fill hρ params vs) fun _ => ?_
      refine .bind (.withContexts contexts (.withContext _ (.parts ?_ ?_))) fun _ => .value _
      · exact Step.follows_relocateAll hρ compute
      · exact Step.follows_relocateAll hρ emit
    | _ => exact .halt _
  | .rendered compute emit =>
    .bind (.parts (Step.follows_relocateAll hρ compute) (Step.follows_relocateAll hρ emit)) fun _ => .value _

theorem Code.follows_relocateAll (hρ : ρ.Injective) :
    (cs : List Code) → Flow.Follows ρ False (Code.runAll h cs) (Code.runAll h (Code.relocateAll ρ cs))
  | [] => .value _
  | c :: cs => .bind (Code.follows_relocate hρ c) fun _ => .bind (Code.follows_relocateAll hρ cs) fun _ => .value _

theorem Step.follows_relocate (hρ : ρ.Injective) :
    (s : Step) → Flow.Follows ρ True (s.run h) ((s.relocate ρ).run h)
  | .text s => .write s
  | .emit c => .bind (Code.follows_relocate hρ c).loud fun v => .reading fun _ _ he => by rw [he.world]; exact .write _
  | .choose test yes no => by
    refine .bind (Code.follows_relocate hρ test).loud fun v => ?_
    split
    · exact Step.follows_relocateAll hρ yes
    · exact Step.follows_relocateAll hρ no
  | .each source body fallback => by
    refine .bind (Code.follows_relocate hρ source).loud fun v => .bind (.look _) fun items => ?_
    split
    · exact Step.follows_relocateAll hρ fallback
    · exact .each (fun v => .withContext v (Step.follows_relocateAll hρ body)) items
  | .block context body =>
    .bind (Code.follows_relocate hρ context).loud fun v => .withContext v (Step.follows_relocateAll hρ body)
  | .bind slots values body => by
    refine .bind (Code.follows_relocateAll hρ values).loud fun vs => .bind (.fill hρ slots vs) fun _ => ?_
    refine .reading fun e e' he => ?_
    rw [he.context 0]
    exact .withContext _ (Step.follows_relocateAll hρ body)
  | .setSlot slot c => .bind (Code.follows_relocate hρ c).loud fun v => .fill hρ [slot] [v]
  | .setVariable frame name c => .bind (Code.follows_relocate hρ c).loud fun v =>
    .inFrame frame fun w ref => w.setVariable ref name v
  | .unsetVariable frame name => .inFrame frame fun w ref => w.unsetVariable ref name
  | .snapshot slot => .change fun e e' he => by
    rw [he.snapshot]
    exact ⟨⟨he.setSlot hρ slot _, he.contexts⟩, .nothing rfl rfl rfl, .nothing rfl rfl rfl⟩
  | .assert test message => by
    refine .bind (Code.follows_relocate hρ test).loud fun v => ?_
    split
    · exact .value ()
    · exact .bind (Code.follows_relocate hρ message).loud fun _ => .reading fun _ _ he => by
        rw [he.world]
        exact .halt _
  | .raise message => .halt _
  | .raiseText body => .bind (.capture (Step.follows_relocateAll hρ body)) fun _ => .halt _
  | .passCap passes => .change fun e e' he =>
    ⟨he.of_same rfl rfl rfl rfl rfl rfl, .nothing rfl rfl rfl, .nothing rfl rfl rfl⟩
  | .pragma text => by
    unfold Step.relocate Step.run
    cases h.pragma with
    | none => exact .value ()
    | some listen =>
      refine .reading fun e e' he => ?_
      rw [he.world]
      refine .bind (.world fun _ _ _ => rfl) fun _ => ?_
      split
      · exact .halt _
      · exact .value ()
  | .transform f body => .bind (.capture (Step.follows_relocateAll hρ body)) fun s => .write (f s)

theorem Step.follows_relocateAll (hρ : ρ.Injective) :
    (ss : List Step) → Flow.Follows ρ True (Step.runAll h ss) (Step.runAll h (Step.relocateAll ρ ss))
  | [] => .value ()
  | s :: ss => .bind (Step.follows_relocate hρ s) fun _ => Step.follows_relocateAll hρ ss

end

end

end Stencil
