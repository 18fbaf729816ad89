import Mathlib.Logic.Relation
import Stencil.Proofs.Run.Frames
import Stencil.Template.Basic
set_option autoImplicit false

namespace Stencil

/-- The expressions of which an expression takes the values, in the order in which it does. -/
def Code.operands : Code → List Code
  | .const _ | .context _ | .slot _ | .variable _ _ _ _ | .rendered _ _ => []
  | .lateMember c _ _ _ | .field c _ | .property c _ _ | .unary _ c | .toBool c | .toText c | .convert c _ => [c]
  | .index a b | .binary _ a b | .both a b | .either a b | .coalesce a b _ => [a, b]
  | .choice test yes no => [test, yes, no]
  | .lateCall c _ args _ _ | .method c _ args | .callValue c _ args => c :: args
  | .fragment _ _ _ _ _ args => args

def Step.operands : Step → List Code
  | .emit c | .choose c _ _ | .each c _ _ | .block c _ | .setSlot _ c | .setVariable _ _ c => [c]
  | .bind _ values _ => values
  | .assert test message => [test, message]
  | _ => []

inductive Part where
  | code (c : Code)
  | step (s : Step)
  | body (ss : List Step)

namespace Part

def run (h : Host) : Part → Flow Unit
  | .code c => do let _ ← c.run h
  | .step s => s.run h
  | .body ss => Step.runAll h ss

def operands : Part → List Code
  | .code c => c.operands
  | .step s => s.operands
  | .body _ => []

def slots : Part → List Nat
  | .code (.slot n) | .step (.setSlot n _) | .step (.snapshot n) => [n]
  | .code (.fragment _ params snapshot _ _ _) => snapshot :: params
  | .step (.bind ns _ _) => ns
  | _ => []

end Part

namespace Env

def capturing (e : Env) : Env := { e with captures := "" :: e.captures }

def inside (e : Env) (v : Value) : Env := { e with contexts := v :: e.contexts }

/-- In the contexts of a definition, given from the outermost in, and once more in the innermost of them. -/
def insideAll (e : Env) (vs : List Value) : Env := { e with contexts := vs.getLast?.getD .null :: vs.reverse }

end Env

/-- In the run of the first part from the first environment, the second part runs from the second
environment. -/
inductive Part.Enters (h : Host) : Part → Env → Part → Env → Prop
  /-- An operand is taken after operands before it; some of those may not be asked for. -/
  | operand {p : Part} {c : Code} {before : List Code} {vs : List Value} {e e₁ : Env} :
    (before ++ [c]).Sublist p.operands → Code.runAll h before e = (.ok vs, e₁) → Enters h p e (.code c) e₁
  | first (s : Step) (ss : List Step) (e : Env) : Enters h (.body (s :: ss)) e (.step s) e
  | rest {s : Step} {ss : List Step} {e e₁ : Env} :
    s.run h e = (.ok (), e₁) → Enters h (.body (s :: ss)) e (.body ss) e₁
  | yes {test : Code} {yes no : List Step} {v : Value} {e e₁ : Env} :
    test.run h e = (.ok v, e₁) → v.truth = true → Enters h (.step (.choose test yes no)) e (.body yes) e₁
  | no {test : Code} {yes no : List Step} {v : Value} {e e₁ : Env} :
    test.run h e = (.ok v, e₁) → v.truth = false → Enters h (.step (.choose test yes no)) e (.body no) e₁
  | item {source : Code} {body fallback : List Step} {before after : List Value} {v item : Value}
      {e e₁ e₂ : Env} :
    source.run h e = (.ok v, e₁) → v.elements e₁.world = .ok (before ++ item :: after) →
    Flow.each (fun item => Flow.withContext item (Step.runAll h body)) before e₁ = (.ok (), e₂) →
    Enters h (.step (.each source body fallback)) e (.body body) (e₂.inside item)
  | fallback {source : Code} {body fallback : List Step} {v : Value} {e e₁ : Env} :
    source.run h e = (.ok v, e₁) → v.elements e₁.world = .ok [] →
    Enters h (.step (.each source body fallback)) e (.body fallback) e₁
  | block {context : Code} {body : List Step} {v : Value} {e e₁ : Env} :
    context.run h e = (.ok v, e₁) → Enters h (.step (.block context body)) e (.body body) (e₁.inside v)
  | bind {slots : List Nat} {values : List Code} {body : List Step} {vs : List Value} {e e₁ : Env} :
    Code.runAll h values e = (.ok vs, e₁) →
    Enters h (.step (.bind slots values body)) e (.body body) ((e₁.setSlots slots vs).inside (e₁.context 0))
  | raiseText (body : List Step) (e : Env) : Enters h (.step (.raiseText body)) e (.body body) e.capturing
  | transform (f : String → String) (body : List Step) (e : Env) :
    Enters h (.step (.transform f body)) e (.body body) e.capturing
  | compute (compute emit : List Step) (e : Env) :
    Enters h (.code (.rendered compute emit)) e (.body compute) e.capturing
  | emit {compute emit : List Step} {s : String} {e e₁ : Env} :
    Flow.capture (Step.runAll h compute) e = (.ok s, e₁) →
    Enters h (.code (.rendered compute emit)) e (.body emit) e₁.capturing
  | fragmentCompute {name : String} {params : List Nat} {snapshot : Nat} {compute emit : List Step}
      {args : List Code} {contexts vs : List Value} {e e₁ : Env} :
    e.slot snapshot = .list contexts → Code.runAll h args e = (.ok vs, e₁) →
    Enters h (.code (.fragment name params snapshot compute emit args)) e (.body compute)
      ((e₁.setSlots params vs).insideAll contexts).capturing
  | fragmentEmit {name : String} {params : List Nat} {snapshot : Nat} {compute emit : List Step}
      {args : List Code} {contexts vs : List Value} {s : String} {e e₁ e₂ : Env} :
    e.slot snapshot = .list contexts → Code.runAll h args e = (.ok vs, e₁) →
    Flow.capture (Step.runAll h compute) ((e₁.setSlots params vs).insideAll contexts) = (.ok s, e₂) →
    Enters h (.code (.fragment name params snapshot compute emit args)) e (.body emit) e₂.capturing

def Part.Placed (l : Likeness) (σ : List SlotUse) (d : Nat) : Part → Prop
  | .code c => ∃ c', Code.Alike l σ d c c'
  | .step s => ∃ s', Step.Alike l σ d s s'
  | .body ss => ∃ ss', Step.AlikeAll l σ d ss ss'

variable {l : Likeness} {σ : List SlotUse} {d : Nat} {h : Host}

/-- Taking a list of steps apart, past probes that only the second list has. -/
theorem Step.AlikeAll.of_cons {s : Step} {ss ss' : List Step} (h : Step.AlikeAll l σ d (s :: ss) ss') :
    (∃ s', Step.Alike l σ d s s') ∧ ∃ ss', Step.AlikeAll l σ d ss ss' := by
  induction ss' with
  | nil => cases h
  | cons s' ss' ih =>
    cases h with
    | cons hs hss => exact ⟨⟨s', hs⟩, ss', hss⟩
    | probed hss => exact ih hss

theorem Code.AlikeAll.exists_of_mem {cs cs' : List Code} (h : Code.AlikeAll l σ d cs cs') :
    ∀ c ∈ cs, ∃ c', Code.Alike l σ d c c' := by
  induction cs generalizing cs' with
  | nil => exact nofun
  | cons c cs ih =>
    cases h with
    | cons hc hcs => exact List.forall_mem_cons.2 ⟨⟨_, hc⟩, ih hcs⟩

theorem Code.AlikeAll.of_forall {cs : List Code} (h : ∀ c ∈ cs, ∃ c', Code.Alike l σ d c c') :
    ∃ cs', Code.AlikeAll l σ d cs cs' := by
  induction cs with
  | nil => exact ⟨[], .nil⟩
  | cons c cs ih =>
    obtain ⟨⟨c', hc⟩, hcs⟩ := List.forall_mem_cons.1 h
    obtain ⟨cs', hcs⟩ := ih hcs
    exact ⟨c' :: cs', .cons hc hcs⟩

theorem Code.Alike.operands {c c' : Code} (h : Code.Alike l σ d c c') : Code.AlikeAll l σ d c.operands c'.operands := by
  cases h with
  | const | context | slot | ofVariable | rendered => exact .nil
  | lateMember _ hc | field _ hc | property hc | unary hc | toBool hc | toText hc | convert hc => exact .cons hc .nil
  | index ha hb | binary ha hb | both ha hb | either ha hb | coalesce ha hb => exact .cons ha (.cons hb .nil)
  | choice ht hy hn => exact .cons ht (.cons hy (.cons hn .nil))
  | lateCall _ hc hargs | method _ hc hargs | callValue hc hargs => exact .cons hc hargs
  | fragment _ _ _ _ hargs => exact hargs

theorem Step.Alike.operands {s s' : Step} (h : Step.Alike l σ d s s') : Code.AlikeAll l σ d s.operands s'.operands := by
  cases h with
  | emit hc | choose hc | each hc | block hc | setSlot _ hc | setVariable _ hc => exact .cons hc .nil
  | bind _ hvalues => exact hvalues
  | assert ht hm => exact .cons ht (.cons hm .nil)
  | _ => exact .nil

namespace Part.Placed

variable {p : Part}

theorem operands (hp : p.Placed l σ d) : ∀ c ∈ p.operands, ∃ c', Code.Alike l σ d c c' := by
  cases p with
  | code c => exact hp.choose_spec.operands.exists_of_mem
  | step s => exact hp.choose_spec.operands.exists_of_mem
  | body ss => exact nofun

theorem keeps (hp : p.Placed l σ d) (h : Host) : Flow.Keeps σ d (p.run h) := by
  cases p with
  | code c =>
    obtain ⟨c', hc⟩ := hp
    exact ((RunRelation.keeping h l σ).code hc).bind fun _ => (RunRelation.keeping h l σ).value ()
  | step s =>
    obtain ⟨s', hs⟩ := hp
    exact (RunRelation.keeping h l σ).step trivial hs
  | body ss =>
    obtain ⟨ss', hss⟩ := hp
    exact (RunRelation.keeping h l σ).steps trivial hss

theorem context_lt {n : Nat} (hp : Part.Placed l σ d (.code (.context n))) : n < d := by
  obtain ⟨c', hc⟩ := hp
  cases hc with
  | context hn => exact hn

theorem probe_eq {k : Nat} (hp : Part.Placed l σ d (.step (.probe k))) : k = d := by
  obtain ⟨s', hs⟩ := hp
  generalize hk : Step.probe k = s at hs
  cases hs with
  | probe => exact Step.probe_injective hk
  | _ => cases hk

theorem slot_lt (hp : p.Placed l σ d) : ∀ n ∈ p.slots, n < σ.length := by
  have hlt {n : Nat} {u : SlotUse} (hn : σ[n]? = some u) : n < σ.length := (List.getElem?_eq_some_iff.1 hn).1
  cases p with
  | code c =>
    obtain ⟨c', hc⟩ := hp
    cases hc with
    | slot hn => exact List.forall_mem_singleton.2 (hlt hn)
    | fragment hparams hsnapshot => exact List.forall_mem_cons.2 ⟨hlt hsnapshot, fun n hn => hlt (hparams n hn)⟩
    | _ => exact nofun
  | step s =>
    obtain ⟨s', hs⟩ := hp
    cases hs with
    | setSlot hn | snapshot hn => exact List.forall_mem_singleton.2 (hlt hn)
    | bind hslots => exact fun n hn => hlt (hslots n hn)
    | _ => exact nofun
  | body ss => exact nofun

end Part.Placed

namespace Env.Fits

variable {e e' : Env}

theorem inside (he : e.Fits σ d) (v : Value) : (e.inside v).Fits σ (d + 1) := by
  have hfits := he.withContexts (v :: e.contexts)
  rwa [List.length_cons, show e.contexts.length = d from he.depth] at hfits

theorem insideAll (he : e.Fits σ d) (vs : List Value) : (e.insideAll vs).Fits σ (vs.length + 1) := by
  have hfits := he.withContexts (vs.getLast?.getD .null :: vs.reverse)
  rwa [List.length_cons, List.length_reverse] at hfits

theorem capturing (he : e.Fits σ d) : e.capturing.Fits σ d := he.of_same rfl rfl

theorem after {α : Type} {x : Flow α} {r : Except Halt α} (he : e.Fits σ d) (hx : Flow.Keeps σ d x)
    (hr : x e = (r, e')) : e'.Fits σ d := by
  have hfits := (hx e he).1
  rwa [hr] at hfits

end Env.Fits

/-- From a part that fits its place and its environment, a run goes on only to parts that fit theirs. -/
theorem Part.Enters.placed {p q : Part} {e e' : Env} (hq : p.Enters h e q e') (hp : p.Placed l σ d)
    (he : e.Fits σ d) : ∃ d', q.Placed l σ d' ∧ e'.Fits σ d' := by
  let r := RunRelation.keeping h l σ
  cases hq with
  | @operand _ c before vs _ _ hsub hrun =>
    -- The operands that were asked for before this one need not be all that stand before it.
    have hcodes (x : Code) (hx : x ∈ before ++ [c]) := hp.operands x (hsub.subset hx)
    obtain ⟨cs, hbefore⟩ := Code.AlikeAll.of_forall fun x hx => hcodes x (List.mem_append_left _ hx)
    exact ⟨d, hcodes c (by simp), he.after (r.codes hbefore) hrun⟩
  | first s ss =>
    obtain ⟨ss', hss⟩ := hp
    exact ⟨d, hss.of_cons.1, he⟩
  | rest hrun =>
    obtain ⟨ss', hss⟩ := hp
    obtain ⟨⟨s', hs⟩, hss⟩ := hss.of_cons
    exact ⟨d, hss, he.after (r.step trivial hs) hrun⟩
  | yes hrun _ =>
    obtain ⟨s', hs⟩ := hp
    cases hs with
    | choose ht hyes _ => exact ⟨d, ⟨_, hyes⟩, he.after (r.code ht) hrun⟩
  | no hrun _ =>
    obtain ⟨s', hs⟩ := hp
    cases hs with
    | choose ht _ hno => exact ⟨d, ⟨_, hno⟩, he.after (r.code ht) hrun⟩
  | item hrun _ heach =>
    obtain ⟨s', hs⟩ := hp
    cases hs with
    | each hc hbody _ =>
      have hitems := r.each (fun v => r.inContext v trivial (r.steps trivial hbody))
      exact ⟨d + 1, ⟨_, hbody⟩, ((he.after (r.code hc) hrun).after (hitems _) heach).inside _⟩
  | fallback hrun _ =>
    obtain ⟨s', hs⟩ := hp
    cases hs with
    | each hc _ hfallback => exact ⟨d, ⟨_, hfallback⟩, he.after (r.code hc) hrun⟩
  | block hrun =>
    obtain ⟨s', hs⟩ := hp
    cases hs with
    | block hc hbody => exact ⟨d + 1, ⟨_, hbody⟩, (he.after (r.code hc) hrun).inside _⟩
  | @bind slots values body vs _ _ hrun =>
    obtain ⟨s', hs⟩ := hp
    cases hs with
    | bind hslots hvalues hbody =>
      exact ⟨d + 1, ⟨_, hbody⟩, ((he.after (r.codes hvalues) hrun).setSlots hslots vs).1.inside _⟩
  | raiseText body =>
    obtain ⟨s', hs⟩ := hp
    cases hs with
    | raiseText hbody => exact ⟨d, ⟨_, hbody⟩, he.capturing⟩
  | transform f body =>
    obtain ⟨s', hs⟩ := hp
    cases hs with
    | probe => exact ⟨d, ⟨_, .cons (.text _) .nil⟩, he.capturing⟩
  | compute compute emit =>
    obtain ⟨c', hc⟩ := hp
    cases hc with
    | rendered _ hcompute _ => exact ⟨d, ⟨_, hcompute⟩, he.capturing⟩
  | emit hrun =>
    obtain ⟨c', hc⟩ := hp
    cases hc with
    | rendered _ hcompute hemit =>
      exact ⟨d, ⟨_, hemit⟩, (he.after (r.capture trivial (r.steps trivial hcompute)) hrun).capturing⟩
  | @fragmentCompute _ params snapshot _ _ _ contexts vs _ _ hslot hrun =>
    obtain ⟨c', hc⟩ := hp
    cases hc with
    | fragment hparams hsnapshot hcompute _ hargs =>
      -- The snapshot holds as many contexts as there were frames around the definition.
      obtain rfl := he.kept snapshot _ contexts hsnapshot hslot
      have hargs := ((he.after (r.codes hargs) hrun).setSlots hparams vs).1
      exact ⟨contexts.length + 1, ⟨_, hcompute⟩, (hargs.insideAll contexts).capturing⟩
  | @fragmentEmit _ params snapshot _ _ _ contexts vs _ _ _ _ hslot hrun hcapture =>
    obtain ⟨c', hc⟩ := hp
    cases hc with
    | fragment hparams hsnapshot hcompute hemit hargs =>
      obtain rfl := he.kept snapshot _ contexts hsnapshot hslot
      have hargs := ((he.after (r.codes hargs) hrun).setSlots hparams vs).1
      have hcomputed := (hargs.insideAll contexts).after (r.capture trivial (r.steps trivial hcompute)) hcapture
      exact ⟨contexts.length + 1, ⟨_, hemit⟩, hcomputed.capturing⟩

/-- A part that runs, from an environment, in the run of a template. -/
def Template.Reaches (t : Template) (h : Host) (context : Value) (w : World) (p : Part) (e : Env) : Prop :=
  Relation.ReflTransGen (fun x y => Part.Enters h x.1 x.2 y.1 y.2)
    (.body t.body, Env.init context t.slots { w with format := t.format }) (p, e)

/-- In the run of a template that fits its place, all parts fit theirs, and so do their environments. -/
theorem Template.Reaches.placed {t : Template} {context : Value} {w : World} {p : Part} {e : Env}
    (hp : t.Reaches h context w p e) (hslots : t.slots = σ.length) (hbody : Part.Placed l σ 1 (.body t.body)) :
    ∃ d, p.Placed l σ d ∧ e.Fits σ d := by
  suffices hfits : ∀ x, Relation.ReflTransGen (fun x y : Part × Env => Part.Enters h x.1 x.2 y.1 y.2)
      (.body t.body, Env.init context t.slots { w with format := t.format }) x →
      ∃ d, x.1.Placed l σ d ∧ x.2.Fits σ d from hfits (p, e) hp
  intro x hx
  -- The depth changes along a run; what is kept is that one depth fits both the part and its environment.
  induction hx with
  | refl => exact ⟨1, hbody, .init _ hslots _⟩
  | tail _ hq ih =>
    obtain ⟨d, hp, he⟩ := ih
    exact hq.placed hp he

end Stencil
