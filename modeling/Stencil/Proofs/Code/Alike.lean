import Mathlib.Data.List.Forall2
import Stencil.Code
/-!
Compiled code that differs only in how strict its late names are. Code stands where a number of frames is
around it, and what it does with contexts and slots fits its place: it names contexts of those frames only,
and uses every slot for what the slot is kept for.
-/
set_option autoImplicit false

namespace Stencil

inductive SlotUse where
  | value
  | contexts (depth : Nat)
deriving DecidableEq, Repr

inductive Write where
  | set (name : String)
  | unset (name : String)
deriving DecidableEq, Repr

def Write.name : Write → String
  | set n | unset n => n

/-- A step that changes nothing. It bears the number of frames around the place where it was compiled, and no
directive compiles to such a step. -/
def Step.probe (d : Nat) : Step := .transform (fun _ => "") [.text (String.ofList (List.replicate d '|'))]

theorem Step.probe_injective {d d' : Nat} (h : Step.probe d = Step.probe d') : d = d' := by
  unfold Step.probe at h
  injection h with _ hbody
  injection hbody with htext
  injection htext with htext
  have hlength := congrArg List.length (String.ofList_injective htext)
  rwa [List.length_replicate, List.length_replicate] at hlength

/-- How code may differ: whether a name that is settled on a value, with or without regard to case, may be as
strict as the first in the one code, and as the second in the other. -/
structure Likeness where
  late : Code → String → Bool → Bool → Bool → Prop
  texts : Prop
  field : Field → Prop
  method : Method → Prop
  writes : Nat → Write → Prop

structure Likeness.Takes (l : Likeness) (t : HostType) : Prop where
  field : ∀ {cs name f}, t.field? cs name = some f → l.field f
  method : ∀ m ∈ t.methods, l.method m

def Likeness.same : Likeness :=
  ⟨fun _ _ _ strict strict' => strict' = strict, True, fun _ => True, fun _ => True, fun _ _ => True⟩

variable (l : Likeness) (σ : List SlotUse)

mutual

/-- Expressions that are alike and fit a place with so many frames around it. -/
inductive Code.Alike : Nat → Code → Code → Prop
  | const {d : Nat} (v : Value) : Code.Alike d (.const v) (.const v)
  | context {d n : Nat} : n < d → Code.Alike d (.context n) (.context n)
  | slot {d n : Nat} : σ[n]? = some .value → Code.Alike d (.slot n) (.slot n)
  | ofVariable {d : Nat} (frame : Nat) (name : String) (k : Kind) (cs : Bool) :
    Code.Alike d (.variable frame name k cs) (.variable frame name k cs)
  | lateMember {d : Nat} {c c' : Code} {name : String} {cs strict strict' : Bool} :
    l.late c name cs strict strict' → Code.Alike d c c' →
    Code.Alike d (.lateMember c name cs strict) (.lateMember c' name cs strict')
  | field {d : Nat} {c c' : Code} {f : Field} :
    l.field f → Code.Alike d c c' → Code.Alike d (.field c f) (.field c' f)
  | property {d : Nat} {c c' : Code} {name : String} {cs : Bool} :
    Code.Alike d c c' → Code.Alike d (.property c name cs) (.property c' name cs)
  | index {d : Nat} {c c' i i' : Code} :
    Code.Alike d c c' → Code.Alike d i i' → Code.Alike d (.index c i) (.index c' i')
  | unary {d : Nat} {op : UnaryOp} {c c' : Code} :
    Code.Alike d c c' → Code.Alike d (.unary op c) (.unary op c')
  | binary {d : Nat} {op : BinaryOp} {a a' b b' : Code} :
    Code.Alike d a a' → Code.Alike d b b' → Code.Alike d (.binary op a b) (.binary op a' b')
  | both {d : Nat} {a a' b b' : Code} :
    Code.Alike d a a' → Code.Alike d b b' → Code.Alike d (.both a b) (.both a' b')
  | either {d : Nat} {a a' b b' : Code} :
    Code.Alike d a a' → Code.Alike d b b' → Code.Alike d (.either a b) (.either a' b')
  | coalesce {d : Nat} {a a' b b' : Code} {k : Kind} :
    Code.Alike d a a' → Code.Alike d b b' → Code.Alike d (.coalesce a b k) (.coalesce a' b' k)
  | choice {d : Nat} {t t' y y' n n' : Code} :
    Code.Alike d t t' → Code.Alike d y y' → Code.Alike d n n' →
    Code.Alike d (.choice t y n) (.choice t' y' n')
  | toBool {d : Nat} {c c' : Code} : Code.Alike d c c' → Code.Alike d (.toBool c) (.toBool c')
  | toText {d : Nat} {c c' : Code} : Code.Alike d c c' → Code.Alike d (.toText c) (.toText c')
  | convert {d : Nat} {c c' : Code} {k : Kind} :
    Code.Alike d c c' → Code.Alike d (.convert c k) (.convert c' k)
  | lateCall {d : Nat} {c c' : Code} {name : String} {args args' : List Code} {cs strict strict' : Bool} :
    l.late c name cs strict strict' → Code.Alike d c c' → Code.AlikeAll d args args' →
    Code.Alike d (.lateCall c name args cs strict) (.lateCall c' name args' cs strict')
  | method {d : Nat} {c c' : Code} {m : Method} {args args' : List Code} :
    l.method m → Code.Alike d c c' → Code.AlikeAll d args args' →
    Code.Alike d (.method c m args) (.method c' m args')
  | callValue {d : Nat} {c c' : Code} {name : String} {args args' : List Code} :
    Code.Alike d c c' → Code.AlikeAll d args args' →
    Code.Alike d (.callValue c name args) (.callValue c' name args')
  /-- The parts of a fragment have one more frame around them than its definition. -/
  | fragment {d m : Nat} {name : String} {params : List Nat} {snapshot : Nat}
      {compute compute' emit emit' : List Step} {args args' : List Code} :
    (∀ p ∈ params, σ[p]? = some .value) → σ[snapshot]? = some (.contexts m) →
    Step.AlikeAll (m + 1) compute compute' → Step.AlikeAll (m + 1) emit emit' → Code.AlikeAll d args args' →
    Code.Alike d (.fragment name params snapshot compute emit args)
      (.fragment name params snapshot compute' emit' args')
  | rendered {d : Nat} {compute compute' emit emit' : List Step} :
    l.texts → Step.AlikeAll d compute compute' → Step.AlikeAll d emit emit' →
    Code.Alike d (.rendered compute emit) (.rendered compute' emit')

inductive Code.AlikeAll : Nat → List Code → List Code → Prop
  | nil {d : Nat} : Code.AlikeAll d [] []
  | cons {d : Nat} {c c' : Code} {cs cs' : List Code} :
    Code.Alike d c c' → Code.AlikeAll d cs cs' → Code.AlikeAll d (c :: cs) (c' :: cs')

/-- Steps that are alike and fit a place with so many frames around it. -/
inductive Step.Alike : Nat → Step → Step → Prop
  | text {d : Nat} (s : String) : Step.Alike d (.text s) (.text s)
  | emit {d : Nat} {c c' : Code} : Code.Alike d c c' → Step.Alike d (.emit c) (.emit c')
  | choose {d : Nat} {t t' : Code} {yes yes' no no' : List Step} :
    Code.Alike d t t' → Step.AlikeAll d yes yes' → Step.AlikeAll d no no' →
    Step.Alike d (.choose t yes no) (.choose t' yes' no')
  | each {d : Nat} {c c' : Code} {body body' fallback fallback' : List Step} :
    Code.Alike d c c' → Step.AlikeAll (d + 1) body body' → Step.AlikeAll d fallback fallback' →
    Step.Alike d (.each c body fallback) (.each c' body' fallback')
  | block {d : Nat} {c c' : Code} {body body' : List Step} :
    Code.Alike d c c' → Step.AlikeAll (d + 1) body body' → Step.Alike d (.block c body) (.block c' body')
  | bind {d : Nat} {slots : List Nat} {values values' : List Code} {body body' : List Step} :
    (∀ n ∈ slots, σ[n]? = some .value) → Code.AlikeAll d values values' →
    Step.AlikeAll (d + 1) body body' → Step.Alike d (.bind slots values body) (.bind slots values' body')
  | setSlot {d n : Nat} {c c' : Code} :
    σ[n]? = some .value → Code.Alike d c c' → Step.Alike d (.setSlot n c) (.setSlot n c')
  | setVariable {d frame : Nat} {name : String} {c c' : Code} :
    l.writes frame (.set name) → Code.Alike d c c' →
    Step.Alike d (.setVariable frame name c) (.setVariable frame name c')
  | unsetVariable {d frame : Nat} {name : String} :
    l.writes frame (.unset name) → Step.Alike d (.unsetVariable frame name) (.unsetVariable frame name)
  | snapshot {d n : Nat} : σ[n]? = some (.contexts d) → Step.Alike d (.snapshot n) (.snapshot n)
  | assert {d : Nat} {t t' m m' : Code} :
    Code.Alike d t t' → Code.Alike d m m' → Step.Alike d (.assert t m) (.assert t' m')
  | raise {d : Nat} (message : String) : Step.Alike d (.raise message) (.raise message)
  | raiseText {d : Nat} {body body' : List Step} :
    Step.AlikeAll d body body' → Step.Alike d (.raiseText body) (.raiseText body')
  | passCap {d : Nat} (passes : Nat) : Step.Alike d (.passCap passes) (.passCap passes)
  | pragma {d : Nat} (text : String) : Step.Alike d (.pragma text) (.pragma text)
  | probe {d : Nat} : Step.Alike d (.probe d) (.probe d)

inductive Step.AlikeAll : Nat → List Step → List Step → Prop
  | nil {d : Nat} : Step.AlikeAll d [] []
  | cons {d : Nat} {s s' : Step} {ss ss' : List Step} :
    Step.Alike d s s' → Step.AlikeAll d ss ss' → Step.AlikeAll d (s :: ss) (s' :: ss')
  | probed {d : Nat} {ss ss' : List Step} : Step.AlikeAll d ss ss' → Step.AlikeAll d ss (.probe d :: ss')

end

structure Likeness.Within (l l' : Likeness) : Prop where
  late : ∀ c name cs strict strict', l.late c name cs strict strict' → l'.late c name cs strict strict'
  texts : l.texts → l'.texts
  field : ∀ f, l.field f → l'.field f
  method : ∀ m, l.method m → l'.method m
  writes : ∀ frame w, l.writes frame w → l'.writes frame w

theorem Likeness.Within.refl (l : Likeness) : l.Within l :=
  ⟨fun _ _ _ _ _ h => h, fun h => h, fun _ h => h, fun _ h => h, fun _ _ h => h⟩

variable {l σ} {l' : Likeness} {σ' : List SlotUse}

theorem Likeness.Within.trans {l'' : Likeness} (h : l.Within l') (h' : l'.Within l'') : l.Within l'' :=
  ⟨fun c n cs a b hlate => h'.late c n cs a b (h.late c n cs a b hlate), fun ht => h'.texts (h.texts ht),
    fun f hf => h'.field f (h.field f hf), fun m hm => h'.method m (h.method m hm),
    fun i w hw => h'.writes i w (h.writes i w hw)⟩

theorem Code.AlikeAll.of_forall₂ {d : Nat} {cs cs' : List Code} (h : List.Forall₂ (Code.Alike l σ d) cs cs') :
    Code.AlikeAll l σ d cs cs' := by
  induction h with
  | nil => exact .nil
  | cons hc _ ih => exact .cons hc ih

theorem Likeness.Takes.mono (hl : l.Within l') {t : HostType} (h : l.Takes t) : l'.Takes t :=
  ⟨fun hf => hl.field _ (h.field hf), fun m hm => hl.method m (h.method m hm)⟩

theorem SlotUse.getElem?_of_prefix (hσ : σ <+: σ') {n : Nat} {u : SlotUse}
    (h : σ[n]? = some u) : σ'[n]? = some u := by
  obtain ⟨more, rfl⟩ := hσ
  rw [List.getElem?_append_left (List.getElem?_eq_some_iff.1 h).1]
  exact h

/-! What fits its place still does when more slots are given out, and when more is allowed. -/

mutual

theorem Code.Alike.mono (hl : l.Within l') (hσ : σ <+: σ') {d : Nat} {c c' : Code} :
    Code.Alike l σ d c c' → Code.Alike l' σ' d c c'
  | .const v => .const v
  | .context hn => .context hn
  | .slot hn => .slot (SlotUse.getElem?_of_prefix hσ hn)
  | .ofVariable frame name k cs => .ofVariable frame name k cs
  | .lateMember hlate h => .lateMember (hl.late _ _ _ _ _ hlate) (h.mono hl hσ)
  | .field hf h => .field (hl.field _ hf) (h.mono hl hσ)
  | .property h => .property (h.mono hl hσ)
  | .index h hi => .index (h.mono hl hσ) (hi.mono hl hσ)
  | .unary h => .unary (h.mono hl hσ)
  | .binary ha hb => .binary (ha.mono hl hσ) (hb.mono hl hσ)
  | .both ha hb => .both (ha.mono hl hσ) (hb.mono hl hσ)
  | .either ha hb => .either (ha.mono hl hσ) (hb.mono hl hσ)
  | .coalesce ha hb => .coalesce (ha.mono hl hσ) (hb.mono hl hσ)
  | .choice ht hy hn => .choice (ht.mono hl hσ) (hy.mono hl hσ) (hn.mono hl hσ)
  | .toBool h => .toBool (h.mono hl hσ)
  | .toText h => .toText (h.mono hl hσ)
  | .convert h => .convert (h.mono hl hσ)
  | .lateCall hlate h hargs => .lateCall (hl.late _ _ _ _ _ hlate) (h.mono hl hσ) (hargs.mono hl hσ)
  | .method hm h hargs => .method (hl.method _ hm) (h.mono hl hσ) (hargs.mono hl hσ)
  | .callValue h hargs => .callValue (h.mono hl hσ) (hargs.mono hl hσ)
  | .fragment hparams hsnapshot hcompute hemit hargs =>
    .fragment (fun p hp => SlotUse.getElem?_of_prefix hσ (hparams p hp))
      (SlotUse.getElem?_of_prefix hσ hsnapshot) (hcompute.mono hl hσ) (hemit.mono hl hσ) (hargs.mono hl hσ)
  | .rendered htexts hcompute hemit => .rendered (hl.texts htexts) (hcompute.mono hl hσ) (hemit.mono hl hσ)

theorem Code.AlikeAll.mono (hl : l.Within l') (hσ : σ <+: σ') {d : Nat} {cs cs' : List Code} :
    Code.AlikeAll l σ d cs cs' → Code.AlikeAll l' σ' d cs cs'
  | .nil => .nil
  | .cons h hs => .cons (h.mono hl hσ) (hs.mono hl hσ)

theorem Step.Alike.mono (hl : l.Within l') (hσ : σ <+: σ') {d : Nat} {s s' : Step} :
    Step.Alike l σ d s s' → Step.Alike l' σ' d s s'
  | .text s => .text s
  | .emit h => .emit (h.mono hl hσ)
  | .choose ht hyes hno => .choose (ht.mono hl hσ) (hyes.mono hl hσ) (hno.mono hl hσ)
  | .each h hbody hfallback => .each (h.mono hl hσ) (hbody.mono hl hσ) (hfallback.mono hl hσ)
  | .block h hbody => .block (h.mono hl hσ) (hbody.mono hl hσ)
  | .bind hslots hvalues hbody =>
    .bind (fun n hn => SlotUse.getElem?_of_prefix hσ (hslots n hn)) (hvalues.mono hl hσ) (hbody.mono hl hσ)
  | .setSlot hn h => .setSlot (SlotUse.getElem?_of_prefix hσ hn) (h.mono hl hσ)
  | .setVariable hw h => .setVariable (hl.writes _ _ hw) (h.mono hl hσ)
  | .unsetVariable hw => .unsetVariable (hl.writes _ _ hw)
  | .snapshot hn => .snapshot (SlotUse.getElem?_of_prefix hσ hn)
  | .assert ht hm => .assert (ht.mono hl hσ) (hm.mono hl hσ)
  | .raise message => .raise message
  | .raiseText hbody => .raiseText (hbody.mono hl hσ)
  | .passCap passes => .passCap passes
  | .pragma text => .pragma text
  | .probe => .probe

theorem Step.AlikeAll.mono (hl : l.Within l') (hσ : σ <+: σ') {d : Nat} {ss ss' : List Step} :
    Step.AlikeAll l σ d ss ss' → Step.AlikeAll l' σ' d ss ss'
  | .nil => .nil
  | .cons h hs => .cons (h.mono hl hσ) (hs.mono hl hσ)
  | .probed hs => .probed (hs.mono hl hσ)

end

end Stencil
