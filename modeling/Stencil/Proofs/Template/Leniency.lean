import Stencil.Proofs.Run.Relation
import Stencil.Proofs.Template.Alike
set_option autoImplicit false

namespace Stencil

/-- The first run fails on an unresolved name, or the second does the same. -/
def Flow.Eased {α : Type} (x y : Flow α) : Prop :=
  ∀ e, (∃ name e', x e = (.error (.fail (.unresolved name)), e')) ∨ y e = x e

def Likeness.eased : Likeness :=
  ⟨fun _ _ _ strict strict' => strict' = true → strict = true, True, fun _ => True, fun _ => True, fun _ _ => True⟩

namespace Flow.Eased

variable {α β : Type} {x y : Flow α}

theorem refl (x : Flow α) : Eased x x := fun _ => .inr rfl

theorem bind {f g : α → Flow β} (hx : Eased x y) (hf : ∀ a, Eased (f a) (g a)) : Eased (x >>= f) (y >>= g) := by
  intro e
  rw [bind_apply, bind_apply]
  obtain ⟨name, e', hfail⟩ | hsame := hx e
  · rw [hfail]
    exact .inl ⟨name, e', rfl⟩
  · rw [hsame]
    split
    · next a e₁ _ => exact hf a e₁
    · exact .inr rfl

theorem lenient {strict strict' : Bool} (heased : strict' = true → strict = true) (x : Flow Value) :
    Eased (Flow.lenient strict x) (Flow.lenient strict' x) := by
  intro e
  unfold Flow.lenient
  obtain ⟨r, e'⟩ := x e
  cases r with
  | ok v => exact .inr rfl
  | error r =>
    cases r with
    | stop => exact .inr rfl
    | fail f =>
      cases f with
      | unresolved name =>
        cases strict with
        | true => exact .inl ⟨name, e', rfl⟩
        | false =>
          cases strict' with
          | true => cases heased rfl
          | false => exact .inr rfl
      | _ => exact .inr rfl

theorem withContext (v : Value) (h : Eased x y) : Eased (Flow.withContext v x) (Flow.withContext v y) := by
  intro e
  unfold Flow.withContext
  obtain ⟨name, e', hfail⟩ | hsame := h { e with contexts := v :: e.contexts }
  · rw [hfail]
    exact .inl ⟨name, _, rfl⟩
  · rw [hsame]
    exact .inr rfl

theorem withContexts (vs : List Value) (h : Eased x y) :
    Eased (Flow.withContexts vs x) (Flow.withContexts vs y) := by
  intro e
  unfold Flow.withContexts
  obtain ⟨name, e', hfail⟩ | hsame := h { e with contexts := vs.reverse }
  · rw [hfail]
    exact .inl ⟨name, _, rfl⟩
  · rw [hsame]
    exact .inr rfl

theorem capture {x y : Flow Unit} (h : Eased x y) : Eased (Flow.capture x) (Flow.capture y) := by
  intro e
  unfold Flow.capture
  obtain ⟨name, e', hfail⟩ | hsame := h { e with captures := "" :: e.captures }
  · rw [hfail]
    exact .inl ⟨name, _, rfl⟩
  · rw [hsame]
    exact .inr rfl

end Flow.Eased

def RunRelation.eased (h : Host) (σ : List SlotUse) : RunRelation h .eased σ where
  rel _ x y := Flow.Eased x y
  held _ _ := True
  value a := .refl _
  seq hx hf := hx.bind hf
  halt _ _ := .refl _
  reading hf := fun e => hf e e
  look f := .refl _
  method _ _ _ := .refl _
  callValue _ _ _ := .refl _
  late := by
    intro d c name cs strict strict' heased e
    cases strict with
    | true => exact .inl ⟨name, e, rfl⟩
    | false =>
      cases strict' with
      | true => cases heased rfl
      | false => exact .inr rfl
  invoke _ _ heased := .lenient heased _
  fill _ _ _ _ := .refl _
  keep _ _ := .refl _
  kept _ hf := fun e => hf (e.slot _) (fun _ _ => trivial) e
  edit _ _ := .refl _
  pragma _ _ := .refl _
  passCap _ _ := .refl _
  write _ _ := .refl _
  inContext v _ _ _ h := h.withContext v
  inContexts _ _ h := .withContexts _ h
  capture _ h := .capture h

theorem settleFrom_mono {σ ε : Type} {pass pass' : String → σ → Except ε PassText × σ}
    (h : ∀ text s r s', pass text s = (.ok r, s') → pass' text s = (.ok r, s')) (unstable : Nat → ε)
    (cap passes : Nat) (lowered : Bool) (text : String) (s : σ) {result : String} {s' : σ}
    (hsettle : settleFrom pass unstable cap passes lowered text s = (.ok result, s')) :
    settleFrom pass' unstable cap passes lowered text s = (.ok result, s') := by
  fun_induction settleFrom pass unstable cap passes lowered text s with
  | case1 cap passes lowered text s hmarker =>
    rw [settleFrom, if_pos hmarker]
    exact hsettle
  | case2 cap passes lowered text s hmarker hcap =>
    rw [settleFrom, if_neg hmarker, dif_pos hcap]
    exact hsettle
  | case3 => cases hsettle
  | case4 cap passes lowered text s hmarker hcap r s₁ hpass hstopped =>
    rw [settleFrom, if_neg hmarker, dif_neg hcap, h _ _ _ _ hpass]
    dsimp only
    rw [if_pos hstopped]
    exact hsettle
  | case5 cap passes lowered text s hmarker hcap r s₁ hpass hstopped asked ih =>
    rw [settleFrom, if_neg hmarker, dif_neg hcap, h _ _ _ _ hpass]
    dsimp only
    rw [if_neg hstopped]
    exact ih hsettle

def Easing.lenient {ws : List Write} (c : Compiler) (hresolvers : c.resolvers = []) : Easing ws where
  likeness := .eased
  compiler := c
  strict := false
  eased h := absurd h Bool.false_ne_true
  late _ _ _ _ _ h _ := h
  texts := trivial
  types _ _ _ := ⟨fun _ => trivial, fun _ _ => trivial⟩
  resolvers _ hf := absurd (hresolvers ▸ hf) List.not_mem_nil
  writes _ _ := trivial
  probes := false
  probes' := false
  probed := Bool.le_refl false

/-- A run that does not fail is the same with code in which fewer names must resolve. -/
theorem Template.run_eased {σ : List SlotUse} {t t' : Template}
    (hsteps : Step.AlikeAll .eased σ 1 t.body t'.body) (hslots : t'.slots = t.slots) (hformat : t'.format = t.format)
    {h : Host} {context : Value} {w : World} {p : Pass} (hp : (t.run h context w).outcome = .ok p) :
    t'.run h context w = t.run h context w := by
  unfold run at hp ⊢
  rw [hslots, hformat]
  obtain ⟨name, e', hfail⟩ | hsame :=
    (RunRelation.eased h σ).steps trivial hsteps (Env.init context t.slots { w with format := t.format })
  · rw [hfail] at hp
    cases hp
  · rw [hsame]

namespace Engine

theorem pass_eased {e : Engine} (hdirectives : e.directives = .standard) (hresolvers : e.resolvers = [])
    {context : Value} {source : String} {w w' : World} {r : PassText}
    (h : e.pass context source w = (.ok r, w')) :
    (e.withStrict false).pass context source w = (.ok r, w') := by
  unfold pass at h ⊢
  split at h
  · cases h
  · next t ht =>
    rw [← compileWith_false] at ht
    obtain ⟨σ, t', ht', hslots, hslots', hformat, hsteps⟩ :=
      compile_alike (p := .lenient (e.compiler source w) hresolvers) hdirectives rfl ht
    rw [← compileWith_false, show (e.withStrict false).compileWith false source (context.kind w) w = .ok t' from ht']
    dsimp only at h ⊢
    cases hp : (t.run e.host context w).outcome with
    | error f =>
      rw [hp] at h
      cases h
    | ok p =>
      rw [show (e.withStrict false).host = e.host from rfl,
        Template.run_eased hsteps (hslots'.trans hslots.symm) hformat hp]
      exact h

/-- What is rendered when all names must resolve, once or until it is stable, is rendered alike when they
need not, and leaves the same world. -/
theorem lenient_renders_what_strict_renders (options : Options) (types : Table NamedType) (host : Host)
    (source : String) (context : Value) (w : World) (text : String) (w' : World) :
    let engine (strict : Bool) : Engine := ⟨.standard, { options with strict }, [], types, host⟩
    ((engine true).render source context w = (.ok text, w') →
      (engine false).render source context w = (.ok text, w')) ∧
    ((engine true).renderStable source context w = (.ok text, w') →
      (engine false).renderStable source context w = (.ok text, w')) := by
  intro engine
  have hpass (text : String) (w : World) (r : PassText) (w' : World)
      (h : (engine true).pass context text w = (.ok r, w')) :
      (engine false).pass context text w = (.ok r, w') :=
    pass_eased (e := engine true) rfl rfl h
  refine ⟨fun h => ?_, fun h => ?_⟩
  · unfold render at h ⊢
    cases hr : (engine true).pass context source w with
    | mk r w₁ =>
      rw [hr] at h
      cases r with
      | error f => cases h
      | ok r =>
        rw [hpass source w r w₁ hr]
        exact h
  · exact settleFrom_mono hpass _ _ _ _ source w h

/-- A definition becomes a variable of the context, and the names in the loop are settled late. -/
theorem lenient_renders_what_strict_renders_loop :
    let engine (strict : Bool) : Engine := ⟨.standard, { Options.default with strict }, [], .empty, .empty⟩
    let source := "$$#define all = items$$$$#each all$$<$$name$$>$$/each$$"
    let item (name : String) := Object.record ⟨[("name", .text name)]⟩
    let w : World :=
      { World.empty with objects := #[.record ⟨[("items", .list [.object 1, .object 2])]⟩, item "a", item "b"] }
    let w' := ((engine true).render source (.object 0) w).2
    (engine true).render source (.object 0) w = (.ok "<a><b>", w') ∧
      (engine false).render source (.object 0) w = (.ok "<a><b>", w') := by
  intro engine source item w w'
  have hstrict : (engine true).render source (.object 0) w = (.ok "<a><b>", w') :=
    Prod.ext (ok_of_toOption (by decide +kernel)) rfl
  exact ⟨hstrict, (lenient_renders_what_strict_renders _ _ _ _ _ _ _ _).1 hstrict⟩

end Engine

end Stencil
