import Stencil.Proofs.Code.Twin
import Stencil.Proofs.Host.Discretion
import Stencil.Proofs.Run.Frames
set_option autoImplicit false

namespace Stencil

variable {α β : Type}

/-- A relation between worlds and a condition on values that all that code does keeps. -/
structure Agreement (h : Host) (k : Stock) where
  world : World → World → Prop
  value : Value → Prop
  context : Value → Prop
  null : value .null
  bool : ∀ b, value (.bool b)
  text : ∀ s, value (.text s)
  const : ∀ {v}, k.value v → value v
  outside : context .null
  named : k.contexts → ∀ {v}, context v → value v
  display : ∀ {w w' v}, world w w' → value v → v.display w' = v.display w
  convert : ∀ {v}, value v → ∀ kind, Looks world value (v.convert · kind) (v.convert · kind)
  member : ∀ {v}, value v → ∀ cs name,
    Looks world (fun found => ∀ u ∈ found, value u) (h.member cs v name) (h.member cs v name)
  own : ∀ {v cs name name'}, context v → k.same cs name name' →
    Looks world (fun found => ∀ u ∈ found, value u) (h.member cs v name) (h.member cs v name')
  field : ∀ {f v}, k.field f → value v → Looks world value (f.read · v) (f.read · v)
  index : ∀ {v i}, value v → value i → Looks world value (Host.index · v i) (Host.index · v i)
  unary : ∀ {v}, value v → ∀ op : UnaryOp, Looks world value (op.apply · v) (op.apply · v)
  binary : ∀ {l r}, value l → value r → ∀ op : BinaryOp, Looks world value (op.apply · l r) (op.apply · l r)
  invoke : ∀ {v args}, value v → (∀ a ∈ args, value a) → ∀ cs name, Acts world value (h.invoke cs v name args)
  method : ∀ {m v args}, k.method m → value v → (∀ a ∈ args, value a) → Acts world value (m.run v args)
  call : ∀ {ref args}, value (.function ref) → (∀ a ∈ args, value a) → Acts world value (h.call ref args)
  entered : k.steps → ∀ {v}, value v → context v
  kept : k.steps → ∀ {vs}, value (.list vs) ↔ ∀ v ∈ vs, context v
  elements : k.steps → ∀ {v}, value v → Looks world (fun vs => ∀ u ∈ vs, value u) v.elements v.elements
  setVariable : k.steps → ∀ {w w' ref v}, world w w' → context (.object ref) → value v → ∀ name,
    world (w.setVariable ref name v) (w'.setVariable ref name v)
  unsetVariable : k.steps → ∀ {w w' ref}, world w w' → context (.object ref) → ∀ name,
    world (w.unsetVariable ref name) (w'.unsetVariable ref name)
  pragma : k.steps → ∀ {listen}, h.pragma = some listen → ∀ {w w'}, world w w' → ∀ text,
    (listen text w').1 = (listen text w).1 ∧ world (listen text w).2 (listen text w').2

namespace Agreement

variable {h : Host} {k : Stock} (A : Agreement h k)

structure Envs (e e' : Env) : Prop where
  contexts : e'.contexts = e.contexts
  context : ∀ v ∈ e.contexts, A.context v
  slots : e'.slots = e.slots
  slot : ∀ n, A.value (e.slot n)
  out : e'.out = e.out
  captures : e'.captures = e.captures
  passCap : e'.passCap = e.passCap
  world : A.world e.world e'.world

/-- How runs end alike: with one result, stopped, or both with a failure. -/
inductive Ended (P : α → Prop) : Except Halt α × Env → Except Halt α × Env → Prop
  | ok {a : α} {e e' : Env} : P a → A.Envs e e' → Ended P (.ok a, e) (.ok a, e')
  | stopped {e e' : Env} : A.Envs e e' → Ended P (.error .stop, e) (.error .stop, e')
  | failed {f f' : Failure} {e e' : Env} : Ended P (.error (.fail f), e) (.error (.fail f'), e')

/-- Runs that end alike, started in environments that code cannot tell apart. -/
def Flows (P : α → Prop) (x y : Flow α) : Prop := ∀ e e', A.Envs e e' → A.Ended P (x e) (y e')

variable {A} {P : α → Prop} {Q : β → Prop}

namespace Envs

variable {e e' : Env}

theorem setSlot (he : A.Envs e e') (n : Nat) {v : Value} (hv : A.value v) :
    A.Envs (e.setSlot n v) (e'.setSlot n v) := by
  refine ⟨he.contexts, he.context, ?_, ?_, he.out, he.captures, he.passCap, he.world⟩
  · unfold Env.setSlot
    rw [he.slots]
  · intro m
    by_cases hnm : n = m
    · subst hnm
      rw [Env.slot_setSlot]
      exact hv
    · rw [Env.slot_setSlot_ne e hnm]
      exact he.slot m

theorem setSlots (he : A.Envs e e') (slots : List Nat) {vs : List Value} (hvs : ∀ v ∈ vs, A.value v) :
    A.Envs (e.setSlots slots vs) (e'.setSlots slots vs) := by
  induction slots generalizing e e' vs with
  | nil => exact he
  | cons n ns ih =>
    cases vs with
    | nil => exact he
    | cons v vs =>
      rw [List.forall_mem_cons] at hvs
      exact ih (he.setSlot n hvs.1) hvs.2

theorem at_context (he : A.Envs e e') (n : Nat) : A.context (e.context n) := by
  unfold Env.context
  rw [List.getD_eq_getElem?_getD]
  cases hv : e.contexts[n]? with
  | none => exact A.outside
  | some v => exact he.context v (List.mem_of_getElem? hv)

theorem at_frame (he : A.Envs e e') (n : Nat) : A.context (e.frame n) := by
  unfold Env.frame
  rw [List.getD_eq_getElem?_getD]
  cases hv : e.contexts.reverse[n]? with
  | none => exact A.outside
  | some v => exact he.context v (List.mem_reverse.1 (List.mem_of_getElem? hv))

theorem context_eq (he : A.Envs e e') (n : Nat) : e'.context n = e.context n := by
  unfold Env.context
  rw [he.contexts]

theorem frame_eq (he : A.Envs e e') (n : Nat) : e'.frame n = e.frame n := by
  unfold Env.frame
  rw [he.contexts]

theorem slot_eq (he : A.Envs e e') (n : Nat) : e'.slot n = e.slot n := by
  unfold Env.slot
  rw [he.slots]

theorem inWorld (he : A.Envs e e') {w w' : World} (hw : A.world w w') :
    A.Envs { e with world := w } { e' with world := w' } :=
  ⟨he.contexts, he.context, he.slots, he.slot, he.out, he.captures, he.passCap, hw⟩

theorem inContexts (he : A.Envs e e') {vs : List Value} (hvs : ∀ v ∈ vs, A.context v) :
    A.Envs { e with contexts := vs } { e' with contexts := vs } :=
  ⟨rfl, hvs, he.slots, he.slot, he.out, he.captures, he.passCap, he.world⟩

theorem inCaptures (he : A.Envs e e') (captures : List String) :
    A.Envs { e with captures } { e' with captures } :=
  ⟨he.contexts, he.context, he.slots, he.slot, he.out, rfl, he.passCap, he.world⟩

theorem write (he : A.Envs e e') (s : String) : A.Envs (e.write s) (e'.write s) := by
  unfold Env.write
  rw [he.captures]
  cases e.captures with
  | cons b bs => exact he.inCaptures _
  | nil =>
    refine ⟨he.contexts, he.context, he.slots, he.slot, ?_, rfl, he.passCap, he.world⟩
    dsimp only
    rw [he.out]

end Envs

namespace Flows

theorem value {a : α} (ha : P a) : A.Flows P (pure a) (pure a) := fun _ _ he => .ok ha he

theorem fail (f f' : Failure) : A.Flows P (throw (.fail f)) (throw (.fail f')) := fun _ _ _ => .failed

theorem stop : A.Flows P (throw .stop) (throw .stop) := fun _ _ he => .stopped he

theorem bind {x y : Flow α} {f g : α → Flow β} (hx : A.Flows P x y) (hf : ∀ a, P a → A.Flows Q (f a) (g a)) :
    A.Flows Q (x >>= f) (y >>= g) := by
  intro e e' he
  rw [Flow.bind_apply, Flow.bind_apply]
  have hended := hx e e' he
  revert hended
  generalize x e = r
  generalize y e' = r'
  rintro (⟨ha, he⟩ | he | _)
  · exact hf _ ha _ _ he
  · exact .stopped he
  · exact .failed

theorem reading {f g : Env → Flow α} (hf : ∀ e e', A.Envs e e' → A.Flows P (f e) (g e')) :
    A.Flows P (get >>= f) (get >>= g) := fun e e' he => hf e e' he e e' he

theorem look {f g : World → Except Failure α} (hf : Looks A.world P f g) :
    A.Flows P (Flow.look f) (Flow.look g) := by
  intro e e' he
  obtain ⟨hsame, hP⟩ := hf _ _ he.world
  unfold Flow.look
  rw [hsame]
  cases hfound : f e.world with
  | ok a => exact .ok (hP a hfound) he
  | error r => exact .failed

theorem act {a : Act α} (ha : Acts A.world P a) : A.Flows P (Flow.act a) (Flow.act a) := by
  intro e e' he
  obtain ⟨r, w, w', hr, hr', hworld, hP⟩ := ha.outcomes he.world
  unfold Flow.act
  rw [hr, hr']
  cases r with
  | ok v => exact .ok (hP v rfl) (he.inWorld hworld)
  | error f => exact .failed

theorem lenient {a : Act Value} (ha : Acts A.world A.value a) (strict : Bool) :
    A.Flows A.value (Flow.lenient strict (Flow.act a)) (Flow.lenient strict (Flow.act a)) := by
  intro e e' he
  obtain ⟨r, w, w', hr, hr', hworld, hP⟩ := ha.outcomes he.world
  unfold Flow.lenient Flow.act
  rw [hr, hr']
  cases r with
  | ok v => exact .ok (hP v rfl) (he.inWorld hworld)
  | error f =>
    cases f with
    | unresolved n =>
      cases strict with
      | true => exact .failed
      | false => exact .ok (A.text _) (he.inWorld hworld)
    | _ => exact .failed

theorem change {f g : Env → Env} (hf : ∀ e e', A.Envs e e' → A.Envs (f e) (g e')) :
    A.Flows (fun _ => True) (modify f : Flow Unit) (modify g) := fun e e' he => .ok trivial (hf e e' he)

theorem write (s : String) : A.Flows (fun _ => True) (Flow.write s) (Flow.write s) :=
  change fun _ _ he => he.write s

theorem withContext {v : Value} (hv : A.context v) {x y : Flow α} (hx : A.Flows P x y) :
    A.Flows P (Flow.withContext v x) (Flow.withContext v y) := by
  intro e e' he
  have hended := hx { e with contexts := v :: e.contexts } { e' with contexts := v :: e'.contexts } (by
    rw [he.contexts]
    exact he.inContexts (List.forall_mem_cons.2 ⟨hv, he.context⟩))
  have hdrop {e e' : Env} (he : A.Envs e e') :
      A.Envs { e with contexts := e.contexts.drop 1 } { e' with contexts := e'.contexts.drop 1 } := by
    rw [he.contexts]
    exact he.inContexts fun u hu => he.context u (List.mem_of_mem_drop hu)
  unfold Flow.withContext
  revert hended
  generalize x { e with contexts := v :: e.contexts } = r
  generalize y { e' with contexts := v :: e'.contexts } = r'
  rintro (⟨ha, he⟩ | he | _)
  · exact .ok ha (hdrop he)
  · exact .stopped (hdrop he)
  · exact .failed

theorem withContexts {vs : List Value} (hvs : ∀ v ∈ vs, A.context v) {x y : Flow α} (hx : A.Flows P x y) :
    A.Flows P (Flow.withContexts vs x) (Flow.withContexts vs y) := by
  intro e e' he
  have hended := hx { e with contexts := vs.reverse } { e' with contexts := vs.reverse }
    (he.inContexts fun v hv => hvs v (List.mem_reverse.1 hv))
  have hback {e₁ e₁' : Env} (he₁ : A.Envs e₁ e₁') :
      A.Envs { e₁ with contexts := e.contexts } { e₁' with contexts := e'.contexts } := by
    rw [he.contexts]
    exact he₁.inContexts he.context
  unfold Flow.withContexts
  dsimp only
  revert hended
  generalize x { e with contexts := vs.reverse } = r
  generalize y { e' with contexts := vs.reverse } = r'
  rintro (⟨ha, he⟩ | he | _)
  · exact .ok ha (hback he)
  · exact .stopped (hback he)
  · exact .failed

theorem capture {x y : Flow Unit} (hx : A.Flows (fun _ => True) x y) :
    A.Flows (fun _ => True) (Flow.capture x) (Flow.capture y) := by
  intro e e' he
  have hended := hx { e with captures := "" :: e.captures } { e' with captures := "" :: e'.captures } (by
    rw [he.captures]
    exact he.inCaptures _)
  have hdrop {e e' : Env} (he : A.Envs e e') :
      A.Envs { e with captures := e.captures.drop 1 } { e' with captures := e'.captures.drop 1 } := by
    rw [he.captures]
    exact he.inCaptures _
  unfold Flow.capture
  revert hended
  generalize x { e with captures := "" :: e.captures } = r
  generalize y { e' with captures := "" :: e'.captures } = r'
  rintro (⟨-, he⟩ | he | _)
  · dsimp only [Except.map]
    rw [he.captures]
    have := hdrop he
    rw [he.captures] at this
    exact .ok trivial this
  · exact .stopped (hdrop he)
  · exact .failed

theorem parts {x y x' y' : Flow Unit} (hx : A.Flows (fun _ => True) x x') (hy : A.Flows (fun _ => True) y y') :
    A.Flows (fun _ => True) (Flow.parts x y) (Flow.parts x' y') :=
  (capture hx).bind fun _ _ => capture hy

theorem each {f g : Value → Flow Unit} {vs : List Value}
    (hf : ∀ v ∈ vs, A.Flows (fun _ => True) (f v) (g v)) :
    A.Flows (fun _ => True) (Flow.each f vs) (Flow.each g vs) := by
  induction vs with
  | nil => exact value trivial
  | cons v vs ih =>
    rw [List.forall_mem_cons] at hf
    exact hf.1.bind fun _ _ => ih hf.2

theorem inFrame {frame : Nat} {f g : World → Nat → World}
    (hf : ∀ w w' ref, A.world w w' → A.context (.object ref) → A.world (f w ref) (g w' ref)) :
    A.Flows (fun _ => True)
      (modify fun e => match e.frame frame with
        | .object ref => { e with world := f e.world ref }
        | _ => e)
      (modify fun e => match e.frame frame with
        | .object ref => { e with world := g e.world ref }
        | _ => e) := by
  refine change fun e e' he => ?_
  rw [he.frame_eq]
  have hcontext := he.at_frame frame
  cases hv : e.frame frame with
  | object ref =>
    rw [hv] at hcontext
    exact he.inWorld (hf _ _ ref he.world hcontext)
  | _ => exact he

end Flows

theorem getD_value {found : Option Value} (hfound : ∀ u ∈ found, A.value u) : A.value (found.getD .null) := by
  cases found with
  | some u => exact hfound u rfl
  | none => exact A.null

theorem fitted {v : Value} (hv : A.value v) (kind : Kind) :
    Looks A.world A.value (Value.fitted · kind v) (Value.fitted · kind v) := by
  intro w w' hw
  unfold Value.fitted
  split
  · exact ⟨rfl, .ok hv⟩
  · exact A.convert hv kind w w' hw

theorem callValue {v : Value} (hv : A.value v) {vs : List Value} (hvs : ∀ u ∈ vs, A.value u)
    (name name' : String) :
    A.Flows A.value (Flow.act (h.callValue v name vs)) (Flow.act (h.callValue v name' vs)) := by
  cases v with
  | function ref => exact .act (A.call hv hvs)
  | _ => exact fun _ _ _ => .failed

variable (A)

mutual

theorem code : {c c' : Code} → Code.Twin k c c' → A.Flows A.value (c.run h) (c'.run h)
  | _, _, .const hv => .value (A.const hv)
  | _, _, .context n hcontexts => .reading fun e e' he => by
    rw [he.context_eq]
    exact .value (A.named hcontexts (he.at_context n))
  | _, _, .slot n => .reading fun e e' he => by
    rw [he.slot_eq]
    exact .value (he.slot n)
  | _, _, .ofVariable hname => .reading fun e e' he => by
    rw [he.frame_eq]
    refine (Flows.look (A.own (he.at_frame _) hname)).bind fun found hfound => ?_
    exact .look (fitted (getD_value hfound) _)
  | _, _, .own hname => by
    refine Flows.bind (P := A.context) (.reading fun e e' he => ?_) fun v hv => ?_
    · rw [he.context_eq]
      exact .value (he.at_context 0)
    · exact (Flows.look (A.own hv hname)).bind fun found hfound => .value (getD_value hfound)
  | _, _, .lateMember hc => by
    refine (code hc).bind fun v hv => (Flows.look (A.member hv _ _)).bind fun found hfound => ?_
    cases found with
    | some u => exact .value (hfound u rfl)
    | none =>
      dsimp only
      split
      · exact .fail _ _
      · exact .value (A.text _)
  | _, _, .field hf hc => by
    refine (code hc).bind fun v hv => ?_
    split
    · exact .value A.null
    · exact .look (A.field hf hv)
  | _, _, .property hc => (code hc).bind fun v hv => (Flows.look (A.member hv _ _)).bind fun found hfound =>
      .value (getD_value hfound)
  | _, _, .index hc hi => (code hc).bind fun v hv => (code hi).bind fun i hi => .look (A.index hv hi)
  | _, _, .unary hc => (code hc).bind fun v hv => .look (A.unary hv _)
  | _, _, .binary ha hb => (code ha).bind fun l hl => (code hb).bind fun r hr => .look (A.binary hl hr _)
  | _, _, .both ha hb => by
    refine (code ha).bind fun v hv => ?_
    split
    · exact (code hb).bind fun u hu => .value (A.bool _)
    · exact .value (A.bool _)
  | _, _, .either ha hb => by
    refine (code ha).bind fun v hv => ?_
    split
    · exact .value (A.bool _)
    · exact (code hb).bind fun u hu => .value (A.bool _)
  | _, _, .coalesce ha hb => by
    refine (code ha).bind fun v hv => ?_
    dsimp only
    split
    · exact (code hb).bind fun u hu => .look (fitted hu _)
    · exact (Flows.value hv).bind fun u hu => .look (fitted hu _)
  | _, _, .choice ht hy hn => by
    refine (code ht).bind fun v hv => ?_
    split
    · exact code hy
    · exact code hn
  | _, _, .toBool hc => (code hc).bind fun v hv => .value (A.bool _)
  | _, _, .toText hc => (code hc).bind fun v hv => .reading fun e e' he => by
    rw [A.display he.world hv]
    exact .value (A.text _)
  | _, _, .convert hc => (code hc).bind fun v hv => .look (A.convert hv _)
  | _, _, .lateCall hc hargs =>
    (code hc).bind fun v hv => (codes hargs).bind fun vs hvs => .lenient (A.invoke hv hvs _ _) _
  | _, _, .method hm hc hargs => by
    refine (code hc).bind fun v hv => ?_
    split
    · exact .value A.null
    · exact (codes hargs).bind fun vs hvs => .act (A.method hm hv hvs)
  | _, _, .callValue _ hc hargs => by
    refine (code hc).bind fun v hv => ?_
    split
    · exact .value A.null
    · exact (codes hargs).bind fun vs hvs => callValue hv hvs _ _
  | _, _, .fragment hsteps hcompute hemit hargs => .reading fun e e' he => by
    rw [he.slot_eq]
    rename_i snapshot _ _ _ _ _ _
    have hslot := he.slot snapshot
    cases hv : e.slot snapshot with
    | list contexts =>
      rw [hv] at hslot
      have hcontexts := (A.kept hsteps).1 hslot
      have hinnermost : A.context (contexts.getLast?.getD .null) := by
        cases hlast : contexts.getLast? with
        | none => exact A.outside
        | some v => exact hcontexts v (List.mem_of_getLast? hlast)
      have hbody := Flows.parts (steps hsteps hcompute) (steps hsteps hemit)
      refine (codes hargs).bind fun vs hvs => ?_
      refine (Flows.change fun _ _ he => he.setSlots _ hvs).bind fun _ _ => ?_
      exact (Flows.withContexts hcontexts (Flows.withContext hinnermost hbody)).bind fun _ _ => .value (A.text _)
    | _ => exact .fail _ _
  | _, _, .rendered hsteps hcompute hemit =>
    (Flows.parts (steps hsteps hcompute) (steps hsteps hemit)).bind fun _ _ => .value (A.text _)

theorem codes : {cs cs' : List Code} → Code.TwinAll k cs cs' →
    A.Flows (fun vs => ∀ v ∈ vs, A.value v) (Code.runAll h cs) (Code.runAll h cs')
  | _, _, .nil => .value (by simp)
  | _, _, .cons hc hcs => (code hc).bind fun v hv => (codes hcs).bind fun vs hvs =>
      .value (List.forall_mem_cons.2 ⟨hv, hvs⟩)

theorem step (hsteps : k.steps) : {s s' : Step} → Step.Twin k s s' →
    A.Flows (fun _ => True) (s.run h) (s'.run h)
  | _, _, .text s => .write s
  | _, _, .emit hc => (code hc).bind fun v hv => .reading fun e e' he => by
    rw [A.display he.world hv]
    exact .write _
  | _, _, .choose ht hyes hno => by
    refine (code ht).bind fun v hv => ?_
    split
    · exact steps hsteps hyes
    · exact steps hsteps hno
  | _, _, .each hc hbody hfallback => by
    refine (code hc).bind fun v hv => (Flows.look (A.elements hsteps hv)).bind fun items hitems => ?_
    split
    · exact steps hsteps hfallback
    · exact .each fun u hu => .withContext (A.entered hsteps (hitems u hu)) (steps hsteps hbody)
  | _, _, .block hc hbody =>
    (code hc).bind fun v hv => .withContext (A.entered hsteps hv) (steps hsteps hbody)
  | _, _, .bind hvalues hbody => by
    refine (codes hvalues).bind fun vs hvs => ?_
    refine (Flows.change fun _ _ he => he.setSlots _ hvs).bind fun _ _ => .reading fun e e' he => ?_
    rw [he.context_eq]
    exact .withContext (he.at_context 0) (steps hsteps hbody)
  | _, _, .setSlot hc => (code hc).bind fun v hv => .change fun _ _ he => he.setSlot _ hv
  | _, _, .setVariable hc => (code hc).bind fun v hv =>
      .inFrame fun _ _ _ hw hcontext => A.setVariable hsteps hw hcontext hv _
  | _, _, .unsetVariable frame name => .inFrame fun _ _ _ hw hcontext => A.unsetVariable hsteps hw hcontext name
  | _, _, .snapshot n => .change fun e e' he => by
    have hkept : A.value (.list e.snapshot) :=
      (A.kept hsteps).2 fun v hv => he.context v (List.mem_reverse.1 hv)
    have hsame : e'.snapshot = e.snapshot := by
      unfold Env.snapshot
      rw [he.contexts]
    rw [hsame]
    exact he.setSlot n hkept
  | _, _, .assert ht hm => by
    refine (code ht).bind fun v hv => ?_
    split
    · exact .value trivial
    · exact (code hm).bind fun u hu => .reading fun _ _ _ => .fail _ _
  | _, _, .raise message => .fail _ _
  | _, _, .raiseText hbody => (Flows.capture (steps hsteps hbody)).bind fun _ _ => .fail _ _
  | _, _, .passCap n => .change fun e e' he => by
    refine ⟨he.contexts, he.context, he.slots, he.slot, he.out, he.captures, ?_, he.world⟩
    unfold Env.requestPasses
    rw [he.passCap]
  | _, _, .pragma text => by
    unfold Step.run
    cases hlisten : h.pragma with
    | none => exact .value trivial
    | some listen =>
      refine .reading fun e e' he => ?_
      obtain ⟨hstop, hworld⟩ := A.pragma hsteps hlisten he.world text
      dsimp only
      rw [hstop]
      refine (Flows.change fun _ _ he₁ => he₁.inWorld hworld).bind fun _ _ => ?_
      split
      · exact .stop
      · exact .value trivial
  | _, _, .transform f hbody => (Flows.capture (steps hsteps hbody)).bind fun _ _ => .write _

theorem steps (hsteps : k.steps) : {ss ss' : List Step} → Step.TwinAll k ss ss' →
    A.Flows (fun _ => True) (Step.runAll h ss) (Step.runAll h ss')
  | _, _, .nil => .value trivial
  | _, _, .cons hs hss => (step hsteps hs).bind fun _ _ => steps hsteps hss

end

end Agreement

namespace Outlook

def stock (o : Outlook) (same : Bool → String → String → Prop) (contexts steps : Prop) : Stock :=
  ⟨Value.MadeOf o.parts, Field.Discreet o, Method.Discreet o, same, contexts, steps⟩

/-- What stands as a context in an outlook, and that the steps of a template do not lead out of it. -/
structure Stage (o : Outlook) (h : Host) (same : Bool → String → String → Prop) (contexts steps : Prop) where
  context : Value → Prop
  outside : context .null
  named : contexts → ∀ {v}, context v → v.MadeOf o.parts
  own : ∀ {v cs name name'}, context v → same cs name name' →
    Looks o.world (fun found => ∀ u ∈ found, u.MadeOf o.parts) (h.member cs v name) (h.member cs v name')
  entered : steps → ∀ v, context v ↔ v.MadeOf o.parts
  setVariable : steps → ∀ {w w' ref v}, o.world w w' → o.parts.object ref → v.MadeOf o.parts → ∀ name,
    o.world (w.setVariable ref name v) (w'.setVariable ref name v)
  unsetVariable : steps → ∀ {w w' ref}, o.world w w' → o.parts.object ref → ∀ name,
    o.world (w.unsetVariable ref name) (w'.unsetVariable ref name)
  pragma : steps → ∀ {listen}, h.pragma = some listen → ∀ {w w'}, o.world w w' → ∀ text,
    (listen text w').1 = (listen text w).1 ∧ o.world (listen text w).2 (listen text w').2

variable {o : Outlook} {h : Host} {same : Bool → String → String → Prop} {contexts steps : Prop}

theorem object_of_madeOf {p : Parts} {ref : Nat} (h : (Value.object ref).MadeOf p) : p.object ref := by
  cases h with
  | object href => exact href

/-- With a discreet host, twin code of an outlook gives the same values, made of its parts. -/
def Stage.agreement (st : o.Stage h same contexts steps) (hh : h.Discreet o) :
    Agreement h (o.stock same contexts steps) where
  world := o.world
  value := Value.MadeOf o.parts
  context := st.context
  null := .null
  bool := .bool
  text := .text
  const := id
  outside := st.outside
  named := st.named
  display hw hv := (o.agree hw).display hv
  convert hv kind := o.looks (fun _ _ hw => hw.convert kind _) fun _ _ => Value.madeOf_convert hv kind
  member hv := hh.member hv
  own := st.own
  field hf hv := hf _ hv
  index hv _ := o.looks (fun _ _ hw => hw.index hv _) fun _ hw => Host.madeOf_index hw hv _
  unary hv op := o.looks (fun _ _ hw => hw.unary op _) fun _ _ => UnaryOp.madeOf_apply hv
  binary hl hr op := o.looks (fun _ _ hw => hw.binary hl hr op) fun _ _ => BinaryOp.madeOf_apply hl hr
  invoke hv hargs := hh.invoke hv hargs
  method hm hv hargs := hm _ _ hv hargs
  call _ hargs := hh.call _ _ hargs
  entered hsteps {v} hv := (st.entered hsteps v).2 hv
  kept hsteps := by
    intro vs
    constructor
    · rintro ⟨⟩ v hv
      exact (st.entered hsteps v).2 (‹∀ v ∈ vs, v.MadeOf o.parts› v hv)
    · intro hvs
      exact .list fun v hv => (st.entered hsteps v).1 (hvs v hv)
  elements _ {_} hv := o.looks (fun _ _ hw => hw.elements hv) fun _ hw => Value.madeOf_elements hw hv
  setVariable hsteps {_ _ _ _} hw hcontext hv name :=
    st.setVariable hsteps hw (object_of_madeOf ((st.entered hsteps _).1 hcontext)) hv name
  unsetVariable hsteps {_ _ _} hw hcontext name :=
    st.unsetVariable hsteps hw (object_of_madeOf ((st.entered hsteps _).1 hcontext)) name
  pragma := st.pragma

end Outlook

end Stencil
