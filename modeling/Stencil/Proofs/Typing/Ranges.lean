import Stencil.Proofs.Run.Agreement
import Stencil.Proofs.Template.Content
import Stencil.Proofs.Typing.Twin
set_option autoImplicit false

namespace Stencil

/-- Integers in the ranges of their kinds, and enum values in the ranges of the kinds underneath. -/
def Parts.ranged : Parts where
  int n k := k.contains n = true
  enum t n := t.underlying.contains n = true
  object _ := True
  inRange := id
  enumInRange := id
  underlying := id

abbrev Value.WellFormed (v : Value) : Prop := v.MadeOf .ranged

abbrev World.WellFormed (w : World) : Prop := w.MadeOf .ranged

/-- An action that keeps the world well-formed and gives a well-formed value. -/
def Act.WellFormed (a : Act Value) : Prop :=
  ∀ w, w.WellFormed → (a w).2.WellFormed ∧ Ensures Value.WellFormed (a w).1

def Field.WellFormed (f : Field) : Prop :=
  ∀ w v, w.WellFormed → v.WellFormed → Ensures Value.WellFormed (f.read w v)

def Method.WellFormed (m : Method) : Prop :=
  ∀ v args, v.WellFormed → (∀ a ∈ args, a.WellFormed) → Act.WellFormed (m.run v args)

structure Host.WellFormed (h : Host) : Prop where
  fields : ∀ t ∈ h.types, ∀ e ∈ t.fields.entries, e.2.WellFormed
  statics : ∀ t ∈ h.types, ∀ e ∈ t.statics.entries, e.2.value.WellFormed
  methods : ∀ t ∈ h.types, ∀ m ∈ t.methods, m.WellFormed
  functions : ∀ f ∈ h.functions, ∀ args, (∀ a ∈ args, a.WellFormed) → Act.WellFormed (f args)
  pragma : ∀ listen, h.pragma = some listen → ∀ text w, w.WellFormed → (listen text w).2.WellFormed

theorem Host.wellFormed_empty : Host.empty.WellFormed where
  fields t ht := absurd ht (Array.not_mem_empty t)
  statics t ht := absurd ht (Array.not_mem_empty t)
  methods t ht := absurd ht (Array.not_mem_empty t)
  functions f hf := absurd hf (Array.not_mem_empty f)
  pragma _ h := by cases h

structure Env.WellFormed (e : Env) : Prop where
  contexts : ∀ v ∈ e.contexts, v.WellFormed
  slots : ∀ n, (e.slot n).WellFormed
  world : e.world.WellFormed

def Outlook.ranged : Outlook where
  parts := .ranged
  world w w' := w' = w ∧ w.WellFormed
  agree := by
    rintro w _ ⟨rfl, hw⟩
    exact .refl hw

/-- Code made of well-formed constants and of fields and methods that give well-formed values. -/
def Stock.ranged : Stock := Outlook.ranged.stock (fun _ n n' => n' = n) True True

def Code.WellFormed (c : Code) : Prop := Code.Twin .ranged c c

def Fragment.WellFormed (f : Fragment) : Prop :=
  Step.TwinAll .ranged f.compute f.compute ∧ Step.TwinAll .ranged f.emit f.emit

/-- Nothing that an expression can be compiled to here is out of range. -/
structure Setting.WellFormed (s : Setting) : Prop where
  host : s.host.WellFormed
  variants : ∀ n t, (n, NamedType.enum t) ∈ s.types.entries → ∀ e ∈ t.variants.entries,
    t.underlying.contains e.2 = true
  fragments : ∀ frame ∈ s.scope.frames, ∀ n f, (n, .fragment f) ∈ frame.bindings.entries → f.WellFormed
  resolvers : ∀ f ∈ s.resolvers, ∀ r t, r.receiver.code.WellFormed → f r = .ok (some t) → t.code.WellFormed

theorem Act.WellFormed.acts {a : Act Value} (ha : Act.WellFormed a) :
    Acts Outlook.ranged.world Value.WellFormed a := by
  rintro w w' ⟨rfl, hw⟩
  obtain ⟨hafter, hmade⟩ := ha w' hw
  exact ⟨rfl, ⟨rfl, hafter⟩, hmade⟩

theorem Acts.wellFormed {a : Act Value} (ha : Acts Outlook.ranged.world Value.WellFormed a) : Act.WellFormed a := by
  intro w hw
  obtain ⟨-, ⟨-, hafter⟩, hmade⟩ := ha w w ⟨rfl, hw⟩
  exact ⟨hafter, hmade⟩

theorem Field.discreet_iff (f : Field) : f.Discreet .ranged ↔ f.WellFormed := by
  constructor
  · intro hf w v hw hv
    exact (hf v hv w w ⟨rfl, hw⟩).2
  · rintro hf v hv w w' ⟨rfl, hw⟩
    exact ⟨rfl, hf w' v hw hv⟩

theorem Method.discreet_iff (m : Method) : m.Discreet .ranged ↔ m.WellFormed :=
  ⟨fun hm v args hv hargs => (hm v args hv hargs).wellFormed, fun hm v args hv hargs => (hm v args hv hargs).acts⟩

namespace Host.WellFormed

variable {h : Host}

theorem discreet (hh : h.WellFormed) : h.Discreet .ranged := by
  constructor
  · intro id
    unfold Host.type
    rw [Array.getD_eq_getD_getElem?]
    cases ht : h.types[id]? with
    | none => exact HostType.discreet_named _
    | some t =>
      have hmem := Array.mem_of_getElem? ht
      refine ⟨fun hf => ?_, fun hm => ?_, fun m hm => (Method.discreet_iff m).2 (hh.methods t hmem m hm)⟩
      · obtain ⟨n, hn⟩ := Table.mem_of_lookup hf
        exact (Field.discreet_iff _).2 (hh.fields t hmem _ hn)
      · obtain ⟨n, hn⟩ := Table.mem_of_lookup hm
        exact hh.statics t hmem _ hn
  · intro ref args hargs
    unfold Host.call
    split
    · next f hf => exact (hh.functions f (Array.mem_of_getElem? hf) args hargs).acts
    · exact .value .null

def stage (hh : h.WellFormed) : Outlook.ranged.Stage h (fun _ n n' => n' = n) True True where
  context := Value.WellFormed
  outside := .null
  named _ := id
  own hv hname := by
    rw [hname]
    exact hh.discreet.member hv _ _
  entered _ _ := .rfl
  setVariable _ _ _ _ _ hw _ hv name := by
    obtain ⟨rfl, hw⟩ := hw
    exact ⟨rfl, World.madeOf_setVariable hw _ name hv⟩
  unsetVariable _ _ _ _ hw _ name := by
    obtain ⟨rfl, hw⟩ := hw
    exact ⟨rfl, World.madeOf_unsetVariable hw _ name⟩
  pragma _ _ hlisten _ _ hw text := by
    obtain ⟨rfl, hw⟩ := hw
    exact ⟨rfl, rfl, hh.pragma _ hlisten text _ hw⟩

theorem run (hh : h.WellFormed) {c : Code} (hc : c.WellFormed) {e e' : Env} (he : e.WellFormed) {v : Value}
    (hrun : c.run h e = (.ok v, e')) : v.WellFormed ∧ e'.WellFormed := by
  have henvs : (hh.stage.agreement hh.discreet).Envs e e :=
    ⟨rfl, he.contexts, rfl, he.slots, rfl, rfl, rfl, rfl, he.world⟩
  have hended := (hh.stage.agreement hh.discreet).code hc e e henvs
  rw [hrun] at hended
  cases hended with
  | ok hv he' => exact ⟨hv, he'.context, he'.slot, he'.world.2⟩

end Host.WellFormed

theorem Stock.exact_ranged : Stock.ranged.Exact := fun _ _ _ h => h

namespace Setting.WellFormed

variable {s : Setting}

theorem resolver (hs : s.WellFormed) {f : Resolver} (hf : f ∈ s.resolvers) {r r' : NameRequest}
    (hr : NameRequest.Twin .ranged r r') : Paired (Option.Rel (Typed.Twin .ranged)) (f r) (f r') := by
  obtain rfl := hr.eq Stock.exact_ranged
  cases hfound : f r' with
  | error d => exact .error
  | ok found =>
    cases found with
    | none => exact .ok .none
    | some t => exact .ok (.some ⟨rfl, hs.resolvers f hf r' t hr.receiver.code hfound⟩)

theorem stocked (hs : s.WellFormed) : s.Stocked .ranged where
  literals l span := l.madeOf_value span
  types kind t ht := by
    have htype := hs.host.discreet.describe ht
    exact ⟨htype.field, htype.static, htype.method⟩
  variants n t name v ht hv := by
    obtain ⟨m, hm⟩ := Table.mem_of_lookup hv
    exact .enum (hs.variants n t ht _ hm)
  resolvers f hf r r' hr := hs.resolver hf hr

theorem strictly (hs : s.WellFormed) (strict : Bool) : ({ s with strict } : Setting).WellFormed :=
  ⟨hs.host, hs.variants, hs.fragments, hs.resolvers⟩

theorem bound (hs : s.WellFormed) {n : String} {i : Nat} {b : Binding} (hb : s.lookup n = some (i, b)) :
    Binding.Twin .ranged s.caseSensitive b b := by
  cases b with
  | slot n kind o => exact .slot n kind o
  | «variable» frame name kind => exact .ofVariable frame kind rfl
  | fragment f =>
    -- only frames bind fragments
    obtain ⟨frame, hframe, ⟨m, hm⟩ | ⟨_, -, hvariable⟩⟩ := Scope.cases_of_lookupIn hb
    · obtain ⟨hcompute, hemit⟩ := hs.fragments frame hframe m f hm
      exact .fragment trivial hcompute hemit
    · cases hvariable
  | hidden => exact .hidden

theorem upholds (hs : s.WellFormed) : Upholds (Stock.ranged.correspondence s.caseSensitive) s where
  members strict := (hs.strictly strict).stocked.members s.scope
  statics _ id name _ := hs.stocked.takes (j := .object (.declared id name)) rfl
  variants := hs.stocked.variants
  lookup hb := (hs.bound hb).bound
  context _ := .context _ trivial

theorem elaborate (hs : s.WellFormed) {x : Expr} {t : Typed} (ht : s.elaborate x = .ok t) : t.code.WellFormed := by
  have hmeets := hs.upholds.elaborate ⟨⟨fun _ => rfl, fun _ => rfl, trivial⟩, id, fun _ => rfl⟩ (.any x)
  rw [ht] at hmeets
  cases hmeets with
  | ok h => exact h.code

end Setting.WellFormed

namespace Content

def ranged : Content where
  kind _ := True
  variableKind _ := True
  dynamic := True
  code _ _ t := t.WellFormed
  step _ s := Step.Twin .ranged s s

variable {c : Compiler} {n₀ : Names} {l : Ledger} {strict : Bool}

theorem twin_steps {ss : List Step} (hss : ranged.steps l ss) : Step.TwinAll .ranged ss ss := by
  induction ss with
  | nil => exact .nil
  | cons s ss ih =>
    obtain ⟨hs, hss⟩ := List.forall_mem_cons.1 hss
    exact .cons hs (ih hss)

theorem Sound.wellFormed {n : Names} (hn : ranged.Sound l n.scope) (hc : (c.settingAt n₀ strict).WellFormed)
    (strict' : Bool) : (c.settingAt n strict').WellFormed where
  host := hc.host
  variants := hc.variants
  resolvers := hc.resolvers
  fragments frame hframe name f hf := by
    obtain ⟨_, _, -, -, hcompute, hemit⟩ := (hn.frames frame hframe).bindings _ hf
    exact ⟨twin_steps hcompute, twin_steps hemit⟩

theorem lawful_ranged (hc : (c.settingAt n₀ strict).WellFormed) : ranged.Lawful c where
  context _ := .context 0 trivial
  message _ s := .const (.text s)
  text _ := .text
  emit := .emit
  choose hc hyes hno := .choose hc (twin_steps hyes) (twin_steps hno)
  each hc _ hbody hfallback := .each hc (twin_steps hbody) (twin_steps hfallback)
  inside hc hbody := .block hc (twin_steps hbody)
  lets _ _ hts hbody := by
    refine .bind (.of_forall₂ (List.forall₂_same.2 fun c hc => ?_)) (twin_steps hbody)
    obtain ⟨t, ht, rfl⟩ := List.mem_map.1 hc
    exact codes_of_typed hts t ht
  assert := .assert
  raise _ := .raise
  raiseText hbody := .raiseText (twin_steps hbody)
  rendered _ _ h := .rendered trivial (twin_steps h.1) (twin_steps h.2)
  passCap passes _ _ := .passCap passes
  tell s _ _ := .pragma s
  code_mono _ h := h
  step_mono _ h := h
  kind_of_code _ := trivial
  element _ _ := trivial
  any := trivial
  variableKinds _ _ := trivial
  elaborate hn ht := (hn.wellFormed hc _).elaborate ht
  toBool := .toBool
  setSlot _ := .setSlot
  setVariable _ _ _ := .setVariable
  unsetVariable _ frame name _ := .unsetVariable frame name
  snapshot {_ n} _ := .snapshot n

end Content

/-- Definitions are compiled to fragments that are well-formed. -/
theorem Compile.Reaches.wellFormed {c : Compiler} (hb : c.Blameless) {context : Kind} {namespaces : List String}
    {pos : Nat} {source : List Char} {m : Names}
    (hm : Reaches .standard c (Node.read Directives.standard pos source) ⟨.init c.host c.world context, namespaces⟩ m)
    (hc : (c.settingAt ⟨.init c.host c.world context, namespaces⟩ true).WellFormed) (strict : Bool) :
    (c.settingAt m strict).WellFormed := by
  have hinit : Content.ranged.Sound ⟨[], [context]⟩ (.init c.host c.world context) := by
    refine ⟨rfl, rfl, ⟨nofun, fun _ _ => trivial⟩, fun f hf => ⟨fun _ => trivial, ?_⟩⟩
    obtain rfl := List.mem_singleton.1 hf
    exact nofun
  obtain ⟨l, hl⟩ := (Content.lawful_ranged hc).reached hb hm (Node.ordinary_read Directives.standard pos source) hinit
  exact hl.wellFormed hc strict

namespace Setting

/-- Every value that comes up is well-formed: what operators, conversions, literals, the members of texts and
lists, and positions make of well-formed values, and what expressions give in a well-formed setting. Settings are
well-formed wherever compiling comes to, with all the fragments that were defined on the way. -/
theorem integers_stay_in_range :
    (∀ (op : BinaryOp) (w : World) (l r : Value), l.WellFormed → r.WellFormed →
      Ensures Value.WellFormed (op.apply w l r)) ∧
    (∀ (op : UnaryOp) (w : World) (v : Value), v.WellFormed → Ensures Value.WellFormed (op.apply w v)) ∧
    (∀ (w : World) (v : Value) (k : Kind), v.WellFormed → Ensures Value.WellFormed (v.convert w k)) ∧
    (∀ (l : Literal) (span : Span), Ensures Value.WellFormed (l.value span)) ∧
    (∀ t, t = Builtin.textType ∨ t = Builtin.listType →
      (∀ cs name f, t.field? cs name = some f → f.WellFormed) ∧ ∀ m ∈ t.methods, m.WellFormed) ∧
    (∀ (w : World) (v i : Value), w.WellFormed → v.WellFormed → Ensures Value.WellFormed (Host.index w v i)) ∧
    (∀ (s : Setting) (x : Expr) (t : Typed) (e e' : Env) (v : Value), s.WellFormed → e.WellFormed →
      s.elaborate x = .ok t → t.code.run s.host e = (.ok v, e') → v.WellFormed ∧ e'.WellFormed) ∧
    ∀ (c : Compiler) (context : Kind) (namespaces : List String) (pos : Nat) (source : List Char) (m : Names)
      (strict : Bool), let n : Names := ⟨.init c.host c.world context, namespaces⟩
      c.Blameless → (c.settingAt n true).WellFormed →
      Compile.Reaches .standard c (Node.read Directives.standard pos source) n m → (c.settingAt m strict).WellFormed := by
  refine ⟨?binary, ?unary, ?convert, ?literals, ?builtin, ?index, ?run, ?reached⟩
  case binary => exact fun op w l r hl hr => BinaryOp.madeOf_apply hl hr
  case unary => exact fun op w v hv => UnaryOp.madeOf_apply hv
  case convert => exact fun w v k hv => Value.madeOf_convert hv k
  case literals => exact fun l span => l.madeOf_value span
  case builtin =>
    rintro t (rfl | rfl)
    · exact ⟨fun cs name f hf => (Field.discreet_iff f).1 (Builtin.discreet_textType_fields hf),
        fun m hm => (Method.discreet_iff m).1 (Builtin.discreet_textType_methods hm)⟩
    · exact ⟨fun cs name f hf => (Field.discreet_iff f).1 (Builtin.discreet_listType_fields hf),
        fun m hm => (Method.discreet_iff m).1 (Builtin.discreet_listType_methods hm)⟩
  case index => exact fun w v i hw hv => Host.madeOf_index hw hv i
  case run => exact fun s x t e e' v hs he ht hrun => hs.host.run (hs.elaborate ht) he hrun
  case reached => exact fun c context namespaces pos source m strict hb hc hm => hm.wellFormed hb hc strict

/-- An entry of eight bits without a sign, negated by a fragment that makes a variable of the result. -/
theorem integers_stay_in_range_negated :
    let w := (World.empty.add (.record ⟨[("n", .int 200 .u8)]⟩)).1
    let c : Compiler := ⟨⟨""⟩, .empty, w, .empty, [], .default⟩
    let source := "$$#define flip()$$$$#define m=-n$$!$$/define$$".toList
    let x : Expr := .choice
      (.binary .eq (.call (.name "flip" default) [] default) (.literal (.text "!") default) default)
      (.name "m" default) (.literal .null default) default
    let e : Env := ⟨[.object 0], #[.list [.object 0]], "", [], none, w⟩
    ∃ m t e', Compile.Reaches .standard c (Node.read Directives.standard 0 source)
        ⟨.init .empty w (.object (.record 0)), []⟩ m ∧
      (c.settingAt m true).WellFormed ∧ e.WellFormed ∧ (c.settingAt m true).elaborate x = .ok t ∧
      t.code.run .empty e = (.ok (.int (-200) .i16), e') ∧ (Value.int (-200) .i16).WellFormed ∧ e'.WellFormed := by
  intro w c source x e
  have hrun : ((Compile.nodes .standard (Node.read Directives.standard 0 source) c
      ⟨.init .empty w (.object (.record 0)), []⟩).toOption.bind fun r =>
      ((c.settingAt r.2 true).elaborate x).toOption.bind fun t => (t.code.run .empty e).1.toOption.map fun v =>
        (v.kind w == .int .i16) && v.toInt? == some (-200)) = some true := by decide +kernel
  obtain ⟨⟨ss, m⟩, hm, hrun⟩ := Option.bind_eq_some_iff.1 hrun
  obtain ⟨t, ht, hrun⟩ := Option.bind_eq_some_iff.1 hrun
  obtain ⟨v, hv, hrun⟩ := Option.map_eq_some_iff.1 hrun
  obtain ⟨hkind, hn⟩ := Bool.and_eq_true_iff.1 hrun
  have hv : t.code.run .empty e = (.ok v, _) := Prod.ext (ok_of_toOption hv) rfl
  have hm : Compile.Reaches .standard c (Node.read Directives.standard 0 source) _ m := .of_nodes (ok_of_toOption hm)
  have ht := ok_of_toOption ht
  have hw : w.WellFormed := by
    intro ref _
    cases ref with
    | zero =>
      refine ⟨by rintro _ ⟨⟩, by rintro _ ⟨⟩, ?_⟩
      rintro _ ⟨⟩ e he
      obtain rfl := List.mem_singleton.1 he
      exact .int (show IntKind.contains .u8 200 = true by decide)
    | succ ref =>
      refine ⟨by rintro _ ⟨⟩, by rintro _ ⟨⟩, ?_⟩
      rintro _ ⟨⟩ e he
      cases he
  have hobject : Value.WellFormed (.object 0) := .object trivial
  have he : e.WellFormed := by
    refine ⟨List.forall_mem_singleton.2 hobject, fun n => ?_, hw⟩
    cases n with
    | zero => exact .list (List.forall_mem_singleton.2 hobject)
    | succ n => exact .null
  obtain ⟨-, -, -, -, -, -, hyields, hreached⟩ := integers_stay_in_range
  have hs : (c.settingAt m true).WellFormed := by
    refine hreached c (.object (.record 0)) [] 0 source m true (List.forall_mem_nil _)
      ⟨Host.wellFormed_empty, fun _ _ h => absurd h List.not_mem_nil, ?_, List.forall_mem_nil _⟩ hm
    intro frame hframe n f hf
    obtain rfl := List.mem_singleton.1 hframe
    cases hf
  cases v with
  | int n k =>
    obtain rfl : n = -200 := Option.some.inj (eq_of_beq hn)
    obtain rfl : k = .i16 := by simpa [Kind.same] using show (Kind.int k).same (.int .i16) = true from hkind
    obtain ⟨hvalue, he'⟩ := hyields _ x t e _ _ hs he ht hv
    exact ⟨m, t, _, hm, hs, he, ht, hv, hvalue, he'⟩
  | enum => cases hkind
  | _ => cases hn

end Setting

end Stencil
