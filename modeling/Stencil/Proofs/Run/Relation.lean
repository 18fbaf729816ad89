import Stencil.Proofs.Run.Edits
import Stencil.Proofs.Run.Flow
set_option autoImplicit false

namespace Stencil

/-- A relation between runs with so many contexts, which is kept by all that code does with a host. -/
structure RunRelation (h : Host) (l : Likeness) (σ : List SlotUse) where
  rel {α : Type} : Nat → Flow α → Flow α → Prop
  /-- Whether steps keep it too, which code may hold. -/
  whole : Prop := True
  ofTexts : l.texts → whole := by intros; trivial
  ofContexts {n m : Nat} : σ[n]? = some (.contexts m) → whole := by intros; trivial
  /-- What is known of the contexts that a definition with so many frames around it has left in a slot. -/
  held : Nat → List Value → Prop
  value {α : Type} {d : Nat} (a : α) : rel d (pure a) (pure a)
  seq {α β : Type} {d : Nat} {x y : Flow α} {f g : α → Flow β} :
    rel d x y → (∀ a, rel d (f a) (g a)) → rel d (x >>= f) (y >>= g)
  halt {α : Type} {d : Nat} (r : Halt) : whole → rel d (throw r : Flow α) (throw r)
  reading {α : Type} {d : Nat} {f g : Env → Flow α} : (∀ e, rel d (f e) (g e)) → rel d (get >>= f) (get >>= g)
  look {α : Type} {d : Nat} (f : World → Except Failure α) : rel d (Flow.look f) (Flow.look f)
  method {d : Nat} {m : Method} (v : Value) (vs : List Value) :
    l.method m → rel d (Flow.act (m.run v vs)) (Flow.act (m.run v vs))
  callValue {d : Nat} (v : Value) (name : String) (vs : List Value) :
    rel d (Flow.act (h.callValue v name vs)) (Flow.act (h.callValue v name vs))
  late {d : Nat} {c : Code} {name : String} {cs strict strict' : Bool} : l.late c name cs strict strict' →
    rel d (if strict then throw (.fail (.unresolved name)) else pure (Value.text ""))
      (if strict' then throw (.fail (.unresolved name)) else pure (Value.text ""))
  invoke {d : Nat} {c : Code} {name : String} {cs strict strict' : Bool} (v : Value) (vs : List Value) :
    l.late c name cs strict strict' → rel d (Flow.lenient strict (Flow.act (h.invoke cs v name vs)))
      (Flow.lenient strict' (Flow.act (h.invoke cs v name vs)))
  fill {d : Nat} (slots : List Nat) (vs : List Value) : whole → (∀ n ∈ slots, σ[n]? = some .value) →
    rel d (modify fun e => e.setSlots slots vs) (modify fun e => e.setSlots slots vs)
  keep {d n : Nat} : whole → σ[n]? = some (.contexts d) →
    rel d (modify fun e => e.setSlot n (.list e.snapshot)) (modify fun e => e.setSlot n (.list e.snapshot))
  kept {α : Type} {d n m : Nat} {f g : Value → Flow α} : σ[n]? = some (.contexts m) →
    (∀ v, (∀ vs, v = .list vs → held m vs) → rel d (f v) (g v)) →
    rel d (get >>= fun e => f (e.slot n)) (get >>= fun e => g (e.slot n))
  edit {d frame : Nat} {x : Edit} : whole →
    l.writes frame x.write → rel d (modify fun e => e.edit frame x) (modify fun e => e.edit frame x)
  pragma {d : Nat} (text : String) : whole → rel d ((Step.pragma text).run h) ((Step.pragma text).run h)
  passCap {d : Nat} (passes : Nat) : whole →
    rel d (modify fun e => e.requestPasses passes) (modify fun e => e.requestPasses passes)
  write {d : Nat} (s : String) : whole → rel d (Flow.write s) (Flow.write s)
  inContext {α : Type} {d : Nat} (v : Value) {x y : Flow α} : whole →
    rel (d + 1) x y → rel d (Flow.withContext v x) (Flow.withContext v y)
  inContexts {α : Type} {d m : Nat} {vs : List Value} {x y : Flow α} : whole →
    held m vs → rel m x y → rel d (Flow.withContexts vs x) (Flow.withContexts vs y)
  capture {d : Nat} {x y : Flow Unit} : whole → rel d x y → rel d (Flow.capture x) (Flow.capture y)

def Fragment.call (h : Host) (f : Fragment) (args : List Code) : Value → Flow Value
  | .list contexts => do
    let vs ← Code.runAll h args
    modify fun e => e.setSlots f.params vs
    return .text (← f.body h contexts)
  | _ => throw (.fail (.notInvocable f.name "called before its definition ran"))

theorem Step.run_probe (h : Host) (d : Nat) (e : Env) : (Step.probe d).run h e = (.ok (), e) := by
  obtain ⟨contexts, slots, out, captures, passCap, world⟩ := e
  have hrun : (Step.probe d).run h ⟨contexts, slots, out, captures, passCap, world⟩ =
      (.ok (), Env.write ⟨contexts, slots, out, captures, passCap, world⟩ "") := rfl
  rw [hrun]
  cases captures with
  | nil => simp [Env.write]
  | cons b bs => simp [Env.write]

theorem Step.runAll_probe (h : Host) (d : Nat) (ss : List Step) :
    Step.runAll h (.probe d :: ss) = Step.runAll h ss := by
  funext e
  rw [Step.runAll, Flow.bind_apply, Step.run_probe]

variable {h : Host} {l : Likeness} {σ : List SlotUse}

namespace RunRelation

variable (r : RunRelation h l σ) {d : Nat}

theorem parts (hw : r.whole) {x y x' y' : Flow Unit} (hx : r.rel d x x') (hy : r.rel d y y') :
    r.rel d (Flow.parts x y) (Flow.parts x' y') :=
  r.seq (r.capture hw hx) fun _ => r.capture hw hy

theorem each {f g : Value → Flow Unit} (h : ∀ v, r.rel d (f v) (g v)) (vs : List Value) :
    r.rel d (Flow.each f vs) (Flow.each g vs) := by
  induction vs with
  | nil => exact r.value ()
  | cons v vs ih => exact r.seq (h v) fun _ => ih

mutual

theorem code : {d : Nat} → {c c' : Code} → Code.Alike l σ d c c' → r.rel d (c.run h) (c'.run h)
  | _, _, _, .const v => r.value v
  | _, _, _, .context _ => r.reading fun _ => r.value _
  | _, _, _, .slot _ => r.reading fun _ => r.value _
  | _, _, _, .ofVariable .. => r.reading fun _ => r.seq (r.look _) fun _ => r.look _
  | _, _, _, .lateMember hlate hc => by
    refine r.seq (code hc) fun v => r.seq (r.look _) fun found => ?_
    cases found with
    | some u => exact r.value u
    | none => exact r.late hlate
  | _, _, _, .field _ hc => by
    refine r.seq (code hc) fun v => ?_
    split
    · exact r.value _
    · exact r.look _
  | _, _, _, .property hc => r.seq (code hc) fun _ => r.seq (r.look _) fun _ => r.value _
  | _, _, _, .index hc hi => r.seq (code hc) fun _ => r.seq (code hi) fun _ => r.look _
  | _, _, _, .unary hc => r.seq (code hc) fun _ => r.look _
  | _, _, _, .binary ha hb => r.seq (code ha) fun _ => r.seq (code hb) fun _ => r.look _
  | _, _, _, .both ha hb => by
    refine r.seq (code ha) fun v => ?_
    split
    · exact r.seq (code hb) fun _ => r.value _
    · exact r.value _
  | _, _, _, .either ha hb => by
    refine r.seq (code ha) fun v => ?_
    split
    · exact r.value _
    · exact r.seq (code hb) fun _ => r.value _
  | _, _, _, .coalesce ha hb => by
    refine r.seq (code ha) fun v => ?_
    dsimp only
    split
    · exact r.seq (code hb) fun _ => r.look _
    · exact r.seq (r.value v) fun _ => r.look _
  | _, _, _, .choice ht hy hn => by
    refine r.seq (code ht) fun v => ?_
    split
    · exact code hy
    · exact code hn
  | _, _, _, .toBool hc => r.seq (code hc) fun _ => r.value _
  | _, _, _, .toText hc => r.seq (code hc) fun _ => r.reading fun _ => r.value _
  | _, _, _, .convert hc => r.seq (code hc) fun _ => r.look _
  | _, _, _, .lateCall hlate hc hargs =>
    r.seq (code hc) fun v => r.seq (codes hargs) fun vs => r.invoke v vs hlate
  | _, _, _, .method hm hc hargs => by
    refine r.seq (code hc) fun v => ?_
    split
    · exact r.value _
    · exact r.seq (codes hargs) fun vs => r.method v vs hm
  | _, _, _, .callValue hc hargs => by
    refine r.seq (code hc) fun v => ?_
    split
    · exact r.value _
    · exact r.seq (codes hargs) fun vs => r.callValue v _ vs
  | _, _, _, .fragment hparams hsnapshot hcompute hemit hargs => by
    rename_i name params snapshot compute compute' emit emit' args args'
    have hw := r.ofContexts hsnapshot
    have hparts := r.parts hw (steps hw hcompute) (steps hw hemit)
    refine r.kept (f := Fragment.call h ⟨name, params, snapshot, compute, emit⟩ args)
      (g := Fragment.call h ⟨name, params, snapshot, compute', emit'⟩ args') hsnapshot fun v hv => ?_
    cases v with
    | list vs =>
      refine r.seq (codes hargs) fun args => r.seq (r.fill _ args hw hparams) fun _ => ?_
      exact r.seq (r.inContexts hw (hv vs rfl) (r.inContext _ hw hparts)) fun _ => r.value _
    | _ => exact r.halt _ hw
  | _, _, _, .rendered htexts hcompute hemit =>
    have hw := r.ofTexts htexts
    r.seq (r.parts hw (steps hw hcompute) (steps hw hemit)) fun _ => r.value _

theorem codes : {d : Nat} → {cs cs' : List Code} → Code.AlikeAll l σ d cs cs' →
    r.rel d (Code.runAll h cs) (Code.runAll h cs')
  | _, _, _, .nil => r.value _
  | _, _, _, .cons hc hcs => r.seq (code hc) fun _ => r.seq (codes hcs) fun _ => r.value _

theorem step (hw : r.whole) : {d : Nat} → {s s' : Step} → Step.Alike l σ d s s' → r.rel d (s.run h) (s'.run h)
  | _, _, _, .text s => r.write s hw
  | _, _, _, .emit hc => r.seq (code hc) fun _ => r.reading fun _ => r.write _ hw
  | _, _, _, .choose ht hyes hno => by
    refine r.seq (code ht) fun v => ?_
    split
    · exact steps hw hyes
    · exact steps hw hno
  | _, _, _, .each hc hbody hfallback => by
    refine r.seq (code hc) fun v => r.seq (r.look _) fun items => ?_
    split
    · exact steps hw hfallback
    · exact r.each (fun v => r.inContext v hw (steps hw hbody)) items
  | _, _, _, .block hc hbody => r.seq (code hc) fun v => r.inContext v hw (steps hw hbody)
  | _, _, _, .bind hslots hvalues hbody =>
    r.seq (codes hvalues) fun vs => r.seq (r.fill _ vs hw hslots) fun _ => r.reading fun e =>
      r.inContext (e.context 0) hw (steps hw hbody)
  | _, _, _, .setSlot hn hc => r.seq (code hc) fun v => r.fill [_] [v] hw (by simpa using hn)
  | _, _, _, .setVariable hx hc => r.seq (code hc) fun v => r.edit (x := .set _ v) hw hx
  | _, _, _, .unsetVariable hx => r.edit (x := .unset _) hw hx
  | _, _, _, .snapshot hn => r.keep hw hn
  | _, _, _, .assert ht hm => by
    refine r.seq (code ht) fun v => ?_
    split
    · exact r.value ()
    · exact r.seq (code hm) fun _ => r.reading fun _ => r.halt _ hw
  | _, _, _, .raise message => r.halt _ hw
  | _, _, _, .raiseText hbody => r.seq (r.capture hw (steps hw hbody)) fun _ => r.halt _ hw
  | _, _, _, .passCap passes => r.passCap passes hw
  | _, _, _, .pragma text => r.pragma text hw
  | _, _, _, .probe => r.seq (r.capture hw (r.seq (r.write _ hw) fun _ => r.value ())) fun _ => r.write _ hw

theorem steps (hw : r.whole) : {d : Nat} → {ss ss' : List Step} → Step.AlikeAll l σ d ss ss' →
    r.rel d (Step.runAll h ss) (Step.runAll h ss')
  | _, _, _, .nil => r.value ()
  | _, _, _, .cons hs hss => r.seq (step hw hs) fun _ => steps hw hss
  | _, _, _, .probed hss => by
    rw [Step.runAll_probe]
    exact steps hw hss

end

def same (h : Host) (σ : List SlotUse) : RunRelation h .same σ where
  rel _ x y := y = x
  held _ _ := True
  value _ := rfl
  seq hx hf := by rw [hx, funext hf]
  halt _ _ := rfl
  reading hf := by rw [funext hf]
  look _ := rfl
  method _ _ _ := rfl
  callValue _ _ _ := rfl
  late hlate := by rw [hlate]
  invoke _ _ hlate := by rw [hlate]
  fill _ _ _ _ := rfl
  keep _ _ := rfl
  kept _ hf := by rw [funext fun v => hf v fun _ _ => trivial]
  edit _ _ := rfl
  pragma _ _ := rfl
  passCap _ _ := rfl
  write _ _ := rfl
  inContext _ _ _ _ h := by rw [h]
  inContexts _ _ h := by rw [h]
  capture _ h := by rw [h]

end RunRelation

end Stencil
