import Mathlib.Data.List.Forall2
import Stencil.Code
set_option autoImplicit false

namespace Stencil

structure Stock where
  value : Value → Prop
  field : Field → Prop
  method : Method → Prop
  same : Bool → String → String → Prop
  contexts : Prop
  steps : Prop

variable (k : Stock)

def Stock.Respelled (n n' : String) : Prop := n' = n ∨ ∃ cs, k.same cs n n'

mutual

inductive Code.Twin : Code → Code → Prop
  | const {v : Value} : k.value v → Code.Twin (.const v) (.const v)
  | context (n : Nat) : k.contexts → Code.Twin (.context n) (.context n)
  | slot (n : Nat) : Code.Twin (.slot n) (.slot n)
  | ofVariable {frame : Nat} {name name' : String} {kind : Kind} {cs : Bool} : k.same cs name name' →
    Code.Twin (.variable frame name kind cs) (.variable frame name' kind cs)
  | own {name name' : String} {cs : Bool} : k.same cs name name' →
    Code.Twin (.property (.context 0) name cs) (.property (.context 0) name' cs)
  | lateMember {c c' : Code} {name : String} {cs strict : Bool} : Code.Twin c c' →
    Code.Twin (.lateMember c name cs strict) (.lateMember c' name cs strict)
  | field {c c' : Code} {f : Field} : k.field f → Code.Twin c c' → Code.Twin (.field c f) (.field c' f)
  | property {c c' : Code} {name : String} {cs : Bool} : Code.Twin c c' →
    Code.Twin (.property c name cs) (.property c' name cs)
  | index {c c' i i' : Code} : Code.Twin c c' → Code.Twin i i' → Code.Twin (.index c i) (.index c' i')
  | unary {op : UnaryOp} {c c' : Code} : Code.Twin c c' → Code.Twin (.unary op c) (.unary op c')
  | binary {op : BinaryOp} {a a' b b' : Code} :
    Code.Twin a a' → Code.Twin b b' → Code.Twin (.binary op a b) (.binary op a' b')
  | both {a a' b b' : Code} : Code.Twin a a' → Code.Twin b b' → Code.Twin (.both a b) (.both a' b')
  | either {a a' b b' : Code} : Code.Twin a a' → Code.Twin b b' → Code.Twin (.either a b) (.either a' b')
  | coalesce {a a' b b' : Code} {kind : Kind} :
    Code.Twin a a' → Code.Twin b b' → Code.Twin (.coalesce a b kind) (.coalesce a' b' kind)
  | choice {t t' y y' n n' : Code} :
    Code.Twin t t' → Code.Twin y y' → Code.Twin n n' → Code.Twin (.choice t y n) (.choice t' y' n')
  | toBool {c c' : Code} : Code.Twin c c' → Code.Twin (.toBool c) (.toBool c')
  | toText {c c' : Code} : Code.Twin c c' → Code.Twin (.toText c) (.toText c')
  | convert {c c' : Code} {kind : Kind} : Code.Twin c c' → Code.Twin (.convert c kind) (.convert c' kind)
  | lateCall {c c' : Code} {name : String} {args args' : List Code} {cs strict : Bool} :
    Code.Twin c c' → Code.TwinAll args args' →
    Code.Twin (.lateCall c name args cs strict) (.lateCall c' name args' cs strict)
  | method {c c' : Code} {m : Method} {args args' : List Code} :
    k.method m → Code.Twin c c' → Code.TwinAll args args' → Code.Twin (.method c m args) (.method c' m args')
  | callValue {c c' : Code} {name name' : String} {args args' : List Code} :
    k.Respelled name name' → Code.Twin c c' → Code.TwinAll args args' →
    Code.Twin (.callValue c name args) (.callValue c' name' args')
  | fragment {name : String} {params : List Nat} {snapshot : Nat} {compute compute' emit emit' : List Step}
      {args args' : List Code} :
    k.steps → Step.TwinAll compute compute' → Step.TwinAll emit emit' → Code.TwinAll args args' →
    Code.Twin (.fragment name params snapshot compute emit args)
      (.fragment name params snapshot compute' emit' args')
  | rendered {compute compute' emit emit' : List Step} :
    k.steps → Step.TwinAll compute compute' → Step.TwinAll emit emit' →
    Code.Twin (.rendered compute emit) (.rendered compute' emit')

inductive Code.TwinAll : List Code → List Code → Prop
  | nil : Code.TwinAll [] []
  | cons {c c' : Code} {cs cs' : List Code} :
    Code.Twin c c' → Code.TwinAll cs cs' → Code.TwinAll (c :: cs) (c' :: cs')

inductive Step.Twin : Step → Step → Prop
  | text (s : String) : Step.Twin (.text s) (.text s)
  | emit {c c' : Code} : Code.Twin c c' → Step.Twin (.emit c) (.emit c')
  | choose {t t' : Code} {yes yes' no no' : List Step} :
    Code.Twin t t' → Step.TwinAll yes yes' → Step.TwinAll no no' →
    Step.Twin (.choose t yes no) (.choose t' yes' no')
  | each {c c' : Code} {body body' fallback fallback' : List Step} :
    Code.Twin c c' → Step.TwinAll body body' → Step.TwinAll fallback fallback' →
    Step.Twin (.each c body fallback) (.each c' body' fallback')
  | block {c c' : Code} {body body' : List Step} :
    Code.Twin c c' → Step.TwinAll body body' → Step.Twin (.block c body) (.block c' body')
  | bind {slots : List Nat} {values values' : List Code} {body body' : List Step} :
    Code.TwinAll values values' → Step.TwinAll body body' →
    Step.Twin (.bind slots values body) (.bind slots values' body')
  | setSlot {n : Nat} {c c' : Code} : Code.Twin c c' → Step.Twin (.setSlot n c) (.setSlot n c')
  | setVariable {frame : Nat} {name : String} {c c' : Code} :
    Code.Twin c c' → Step.Twin (.setVariable frame name c) (.setVariable frame name c')
  | unsetVariable (frame : Nat) (name : String) :
    Step.Twin (.unsetVariable frame name) (.unsetVariable frame name)
  | snapshot (n : Nat) : Step.Twin (.snapshot n) (.snapshot n)
  | assert {t t' m m' : Code} : Code.Twin t t' → Code.Twin m m' → Step.Twin (.assert t m) (.assert t' m')
  | raise (message : String) : Step.Twin (.raise message) (.raise message)
  | raiseText {body body' : List Step} : Step.TwinAll body body' → Step.Twin (.raiseText body) (.raiseText body')
  | passCap (passes : Nat) : Step.Twin (.passCap passes) (.passCap passes)
  | pragma (text : String) : Step.Twin (.pragma text) (.pragma text)
  | transform (f : String → String) {body body' : List Step} :
    Step.TwinAll body body' → Step.Twin (.transform f body) (.transform f body')

inductive Step.TwinAll : List Step → List Step → Prop
  | nil : Step.TwinAll [] []
  | cons {s s' : Step} {ss ss' : List Step} :
    Step.Twin s s' → Step.TwinAll ss ss' → Step.TwinAll (s :: ss) (s' :: ss')

end

def Stock.Exact : Prop := ∀ cs n n', k.same cs n n' → n' = n

section

variable {k}

theorem Stock.Exact.respelled (hk : k.Exact) {n n' : String} (h : k.Respelled n n') : n' = n := by
  obtain h | ⟨cs, h⟩ := h
  · exact h
  · exact hk cs n n' h

theorem Code.TwinAll.of_forall₂ {cs cs' : List Code} (h : List.Forall₂ (Code.Twin k) cs cs') :
    Code.TwinAll k cs cs' := by
  induction h with
  | nil => exact .nil
  | cons hc _ ih => exact .cons hc ih

mutual

theorem Code.Twin.eq (hk : k.Exact) : {c c' : Code} → Code.Twin k c c' → c' = c
  | _, _, .const _ | _, _, .context _ _ | _, _, .slot _ => rfl
  | _, _, .ofVariable h => by rw [hk _ _ _ h]
  | _, _, .own h => by rw [hk _ _ _ h]
  | _, _, .lateMember h | _, _, .field _ h | _, _, .property h | _, _, .unary h | _, _, .toBool h
  | _, _, .toText h | _, _, .convert h => by rw [h.eq hk]
  | _, _, .index ha hb | _, _, .binary ha hb | _, _, .both ha hb | _, _, .either ha hb
  | _, _, .coalesce ha hb => by rw [ha.eq hk, hb.eq hk]
  | _, _, .choice ht hy hn => by rw [ht.eq hk, hy.eq hk, hn.eq hk]
  | _, _, .lateCall hc hargs | _, _, .method _ hc hargs => by rw [hc.eq hk, hargs.eq hk]
  | _, _, .callValue hname hc hargs => by rw [hk.respelled hname, hc.eq hk, hargs.eq hk]
  | _, _, .fragment _ hcompute hemit hargs => by rw [hcompute.eq hk, hemit.eq hk, hargs.eq hk]
  | _, _, .rendered _ hcompute hemit => by rw [hcompute.eq hk, hemit.eq hk]

theorem Code.TwinAll.eq (hk : k.Exact) : {cs cs' : List Code} → Code.TwinAll k cs cs' → cs' = cs
  | _, _, .nil => rfl
  | _, _, .cons hc hcs => by rw [hc.eq hk, hcs.eq hk]

theorem Step.Twin.eq (hk : k.Exact) : {s s' : Step} → Step.Twin k s s' → s' = s
  | _, _, .text _ | _, _, .unsetVariable _ _ | _, _, .snapshot _ | _, _, .raise _ | _, _, .passCap _
  | _, _, .pragma _ => rfl
  | _, _, .emit hc | _, _, .setSlot hc | _, _, .setVariable hc => by rw [hc.eq hk]
  | _, _, .choose hc ha hb | _, _, .each hc ha hb => by rw [hc.eq hk, ha.eq hk, hb.eq hk]
  | _, _, .block hc hbody => by rw [hc.eq hk, hbody.eq hk]
  | _, _, .bind hvalues hbody => by rw [hvalues.eq hk, hbody.eq hk]
  | _, _, .assert ht hm => by rw [ht.eq hk, hm.eq hk]
  | _, _, .raiseText hbody | _, _, .transform _ hbody => by rw [hbody.eq hk]

theorem Step.TwinAll.eq (hk : k.Exact) : {ss ss' : List Step} → Step.TwinAll k ss ss' → ss' = ss
  | _, _, .nil => rfl
  | _, _, .cons hs hss => by rw [hs.eq hk, hss.eq hk]

end

end

structure Typed.Twin (t t' : Typed) : Prop where
  kind : t'.kind = t.kind
  code : Code.Twin k t.code t'.code

end Stencil
