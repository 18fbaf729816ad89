import Mathlib.Data.List.Forall2
import Stencil.Proofs.Operator.Soundness
import Stencil.Proofs.Run.Flow
set_option autoImplicit false

namespace Stencil

variable {h : Host} {known : EnumType → Prop}

theorem Host.over_element? {w : World} {k element : Kind}
    (hk : k.Over known) (helement : h.element? w k = some element) : element.Over known := by
  cases k with
  | list k => cases helement; exact hk
  | text | any | null => cases helement; trivial
  | object => exact hk.elim
  | _ => cases helement

theorem Host.has_index {w w' : World} {v i u : Value} {k element : Kind} (hk : k.Over known)
    (helement : h.element? w k = some element) (hv : Has k v)
    (hu : Host.index w' v i = .ok u) : Has element u := by
  cases k with
  | list k =>
    cases helement
    cases hv with
    | null => cases hu; exact .null
    | @list _ items hitems =>
      obtain ⟨n, -, hu⟩ := exists_of_bind_ok hu
      cases hu
      rw [List.getD_eq_getElem?_getD]
      cases hn : items[n]? with
      | none => exact .null
      | some x => exact hitems x (List.mem_of_getElem? hn)
  | text =>
    cases helement
    cases hv with
    | null => cases hu; exact .null
    | text s =>
      obtain ⟨n, -, hu⟩ := exists_of_bind_ok hu
      cases hu
      exact .text _
  | any | null => cases helement; exact .any
  | object => exact hk.elim
  | _ => cases helement

theorem Kind.has_meet (hnames : EnumType.Distinct known) {kl kr : Kind} {v : Value}
    (hl : kl.Over known) (hr : kr.Over known) (hv : Has kl v ∨ Has kr v) :
    Has (kl.meet kr) v ∨ (kl.meet kr).Plain := by
  unfold Kind.meet
  split
  · refine .inl (hv.elim (fun hv => ?_) id)
    cases hv
    exact .null
  · refine .inl (hv.elim id fun hv => ?_)
    cases hv
    exact .null
  · split
    · next heq =>
      rw [← Kind.eq_of_same hnames hl hr heq] at hv
      exact .inl (hv.elim id id)
    · refine .inr ?_
      cases hp : kl.promote kr with
      | none => trivial
      | some k => exact over_promote hp

section

variable {α β : Type}

/-- From an environment with a property, a run that ends well gives what satisfies a condition, and leaves an
environment with the property. -/
def Flow.Leads (I : Env → Prop) (P : α → Prop) (x : Flow α) : Prop :=
  ∀ ⦃e e' : Env⦄ ⦃a : α⦄, I e → x e = (.ok a, e') → I e' ∧ P a

namespace Flow.Leads

variable {I : Env → Prop} {P : α → Prop} {Q : β → Prop}

theorem value {a : α} (ha : P a) : Leads I P (pure a) := by
  rintro e _ _ he ⟨⟩
  exact ⟨he, ha⟩

theorem halt (r : Halt) : Leads I P (throw r) := by
  rintro _ _ _ _ ⟨⟩

theorem bind {x : Flow β} {f : β → Flow α} (hx : Leads I Q x) (hf : ∀ b, Q b → Leads I P (f b)) :
    Leads I P (x >>= f) := by
  intro e e' a he ha
  obtain ⟨b, e₁, hb, ha⟩ := Flow.bind_ok ha
  obtain ⟨he₁, hQ⟩ := hx he hb
  exact hf b hQ he₁ ha

theorem look {f : World → Except Failure α} (hf : ∀ w, Ensures P (f w)) : Leads I P (Flow.look f) := by
  intro e e' a he ha
  obtain ⟨ha, rfl⟩ := Flow.look_ok ha
  exact ⟨he, hf _ a ha⟩

theorem reading {f : Env → α} (hf : ∀ e, I e → P (f e)) : Leads I P (do return f (← get)) := by
  rintro e _ _ he ⟨⟩
  exact ⟨he, hf e he⟩

theorem act {a : Act α} (hI : ∀ e w, I e → I { e with world := w }) (ha : ∀ w, Ensures P (a w).1) :
    Leads I P (Flow.act a) := by
  intro e e' v he hv
  obtain ⟨w, hrun, rfl⟩ := Flow.act_ok hv
  exact ⟨hI e w he, ha _ v (congrArg Prod.fst hrun)⟩

theorem either {q : Prop} [Decidable q] {x y : Flow α} (hx : Leads I P x) (hy : Leads I P y) :
    Leads I P (if q then x else y) := by
  split
  · exact hx
  · exact hy

theorem update {f : Env → Env} (hf : ∀ e, I e → I (f e)) : Leads I (fun _ => True) (modify f) := by
  rintro e _ _ he ⟨⟩
  exact ⟨hf e he, trivial⟩

theorem each {f : Value → Flow Unit} {vs : List Value} (hf : ∀ v ∈ vs, Leads I (fun _ => True) (f v)) :
    Leads I (fun _ => True) (Flow.each f vs) := by
  induction vs with
  | nil => exact .value trivial
  | cons v vs ih =>
    obtain ⟨hv, hvs⟩ := List.forall_mem_cons.1 hf
    exact hv.bind fun _ _ => ih hvs

end Flow.Leads

end

/-- From an environment with a property, an expression yields values of a kind only, and leaves an
environment with the property. -/
def Yields (h : Host) (I : Env → Prop) (c : Code) (k : Kind) : Prop :=
  ∀ ⦃e e' : Env⦄ ⦃v : Value⦄, I e → c.run h e = (.ok v, e') → I e' ∧ Has k v

namespace Yields

open Stencil.Flow (Leads)

variable {h : Host} {I : Env → Prop} {known : EnumType → Prop}
variable {c l r : Code} {k kl kr : Kind}

theorem const {v : Value} (hv : Has k v) : Yields h I (.const v) k := Leads.value hv

theorem context {n : Nat} (hn : ∀ e, I e → Has k (e.context n)) : Yields h I (.context n) k := Leads.reading hn

theorem slot {n : Nat} (hn : ∀ e, I e → Has k (e.slot n)) : Yields h I (.slot n) k := Leads.reading hn

variable {name : String} {cs : Bool} {args : List Code}

theorem ofVariable {frame : Nat} (hk : k.Plain) : Yields h I (.variable frame name k cs) k :=
  Leads.bind (Q := fun _ => True) (Leads.reading fun _ _ => trivial) fun _ _ =>
    Leads.bind (Q := fun _ => True) (.look fun _ _ _ => trivial) fun _ _ =>
      .look fun _ _ hu => Value.has_fitted (.inr hk) hu

theorem field {f : Field} (hc : Yields h I c kl)
    (hf : ∀ w v u, f.read w v = .ok u → Has f.kind u) : Yields h I (.field c f) f.kind :=
  Leads.bind hc fun v _ => .either (.value .null) (.look fun w u hu => hf w v u hu)

theorem lateMember {strict : Bool} (hc : Yields h I c kl) : Yields h I (.lateMember c name cs strict) .any := by
  refine Leads.bind hc fun v _ => Leads.bind (Q := fun _ => True) (.look fun _ _ _ => trivial) fun m _ => ?_
  cases m with
  | some _ => exact .value .any
  | none => exact .either (.halt _) (.value .any)

theorem unary {op : UnaryOp} (hk : k.Over known) (hop : op.kind k = .ok kr) (hc : Yields h I c k) :
    Yields h I (.unary op c) kr :=
  Leads.bind hc fun _ hv => .look fun _ _ hu => op.has_apply hk hop hv hu

theorem binary {op : BinaryOp} (hne : op ≠ .coalesce) (hkl : kl.Over known) (hkr : kr.Over known)
    (hop : op.kind kl kr = .ok k) (hl : Yields h I l kl) (hr : Yields h I r kr) :
    Yields h I (.binary op l r) k :=
  Leads.bind hl fun _ ha => Leads.bind hr fun _ hb => .look fun _ _ hu => op.has_apply hne hkl hkr hop ha hb hu

theorem both (hl : Yields h I l kl) (hr : Yields h I r kr) : Yields h I (.both l r) .bool :=
  Leads.bind hl fun _ _ => .either (Leads.bind hr fun _ _ => .value (.bool _)) (.value (.bool _))

theorem either (hl : Yields h I l kl) (hr : Yields h I r kr) : Yields h I (.either l r) .bool :=
  Leads.bind hl fun _ _ => .either (.value (.bool _)) (Leads.bind hr fun _ _ => .value (.bool _))

theorem choice {test : Code} (hc : Yields h I test kl) (hl : Yields h I l k) (hr : Yields h I r k) :
    Yields h I (.choice test l r) k :=
  Leads.bind hc fun _ _ => .either hl hr

theorem toBool (hc : Yields h I c k) : Yields h I (.toBool c) .bool := Leads.bind hc fun _ _ => .value (.bool _)

theorem toText (hc : Yields h I c k) : Yields h I (.toText c) .text :=
  Leads.bind hc fun _ _ => .reading fun _ _ => .text _

theorem convert (hk : k.Plain) (hc : Yields h I c kl) : Yields h I (.convert c k) k :=
  Leads.bind hc fun _ _ => .look fun _ _ hu => Value.has_convert (.inr hk) hu

theorem index {target position : Code} {w : World} (hk : kl.Over known)
    (helement : h.element? w kl = some k) (ht : Yields h I target kl) (hp : Yields h I position kr) :
    Yields h I (.index target position) k :=
  Leads.bind ht fun _ hv => Leads.bind hp fun _ _ => .look fun _ _ hu => Host.has_index hk helement hv hu

theorem coalesce (hnames : EnumType.Distinct known) (hkl : kl.Over known) (hkr : kr.Over known)
    (hl : Yields h I l kl) (hr : Yields h I r kr) :
    Yields h I (.coalesce l r (kl.meet kr)) (kl.meet kr) := by
  have hfitted {v : Value} (hv : Has kl v ∨ Has kr v) :
      Leads I (Has (kl.meet kr)) (Flow.look fun w => v.fitted w (kl.meet kr)) :=
    .look fun _ _ hu => Value.has_fitted (Kind.has_meet hnames hkl hkr hv) hu
  refine Leads.bind hl fun a ha => .either ?_ (hfitted (.inl ha))
  exact Leads.bind hr fun v hv => hfitted (.inr hv)

theorem runAll {cs : List Code} (hcs : ∀ c ∈ cs, ∃ k, Yields h I c k) :
    Leads I (List.Forall₂ (fun c v => ∀ k, Yields h I c k → Has k v) cs) (Code.runAll h cs) := by
  induction cs with
  | nil =>
    rw [Code.runAll]
    exact .value .nil
  | cons c cs ih =>
    obtain ⟨⟨k, hc⟩, hcs⟩ := List.forall_mem_cons.1 hcs
    have hvalue : Leads I (fun v => ∀ k, Yields h I c k → Has k v) (c.run h) := fun _ _ _ he hv =>
      ⟨(hc he hv).1, fun _ h => (h he hv).2⟩
    rw [Code.runAll]
    exact hvalue.bind fun _ hv => (ih hcs).bind fun _ hvs => .value (.cons hv hvs)

theorem method {m : Method} (hI : ∀ e w, I e → I { e with world := w })
    (hm : ∀ v vs w w' u, m.run v vs w = (.ok u, w') → Has m.returns u) (hc : Yields h I c kl)
    (hargs : ∀ a ∈ args, ∃ k, Yields h I a k) : Yields h I (.method c m args) m.returns := by
  refine Leads.bind hc fun v _ => .either (.value .null) ?_
  exact (runAll hargs).bind fun vs _ => .act hI fun w u hu => hm v vs w _ u (Prod.ext hu rfl)

theorem callValue (hI : ∀ e w, I e → I { e with world := w })
    (hc : Yields h I c kl) (hargs : ∀ a ∈ args, ∃ k, Yields h I a k) :
    Yields h I (.callValue c name args) .any :=
  Leads.bind hc fun _ _ => .either (.value .any) ((runAll hargs).bind fun _ _ => .act hI fun _ _ _ => .any)

theorem lateCall {strict : Bool} (hI : ∀ e w, I e → I { e with world := w }) (hc : Yields h I c kl)
    (hargs : ∀ a ∈ args, ∃ k, Yields h I a k) : Yields h I (.lateCall c name args cs strict) .any := by
  refine Leads.bind hc fun _ _ => (runAll hargs).bind fun _ _ e e' u he hu => ?_
  obtain ⟨w, rfl⟩ := Flow.lenient_world hu
  exact ⟨hI e w he, .any⟩

end Yields

theorem Yields.fragment {I : Env → Prop} {f : Fragment} {args : List Code}
    (hf : ∀ e₁ e₂ e' contexts vs s, I e₁ → e₁.slot f.snapshot = .list contexts → I e₂ →
      f.body h contexts (e₂.setSlots f.params vs) = (.ok s, e') → I e')
    (hargs : ∀ a ∈ args, ∃ k, Yields h I a k) :
    Yields h I (.fragment f.name f.params f.snapshot f.compute f.emit args) .text := by
  intro e e' u he hu
  rw [Code.run_fragment] at hu
  obtain ⟨e₁, _, he₁, hu₁⟩ := Flow.bind_ok hu
  cases he₁
  cases hsnapshot : e.slot f.snapshot with
  | list contexts =>
    rw [hsnapshot] at hu₁
    obtain ⟨vs, e₂, hvs, hu₂⟩ := Flow.bind_ok hu₁
    obtain ⟨_, e₃, hset, hu₃⟩ := Flow.bind_ok hu₂
    cases hset
    obtain ⟨s, e₄, hs, hu₄⟩ := Flow.bind_ok hu₃
    cases hu₄
    exact ⟨hf _ e₂ _ contexts vs s he hsnapshot (runAll hargs he hvs).1 hs, .text s⟩
  | _ => rw [hsnapshot] at hu₁; cases hu₁

end Stencil
