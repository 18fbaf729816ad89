import Stencil.Proofs.Typing.Members
/-!
Calls settled before a run, and calls settled on the value. Both choose the same method and convert the arguments in
the same way. Where no method takes the arguments, only the first of them turns to the member of that name.
-/
set_option autoImplicit false

namespace Stencil

namespace Kind

theorem assignable_bool {a : Kind} (ha : a.isAny = false) (h : (a.implicitCost .bool).isSome) :
    a.assignable .bool := by
  cases a <;> simp_all [implicitCost, beq_eq_same, same, assignable, isAny, isNullable]

theorem assignable_text {a : Kind} (ha : a.isAny = false) (h : (a.implicitCost .text).isSome) :
    a.assignable .text := by
  cases a <;> simp_all [implicitCost, beq_eq_same, same, assignable, isAny, isNullable]

end Kind

variable {h : Host} {e : Env} {cs : Bool} {name : String} {o : Value}

theorem Typed.gives_coerceTo {v : Value} {k : Kind} (hcost : ((v.kind e.world).implicitCost k).isSome) (span : Span) :
    ∃ t, (Typed.const e.world v).coerceTo k span = .ok t ∧ (t.code.run h).Gives e (v.convert e.world k) := by
  by_cases hassign : (v.kind e.world).assignable k
  · refine ⟨_, if_pos hassign, ?_⟩
    have hconvert : v.convert e.world k = .ok v := by
      unfold Value.convert
      exact if_pos hassign
    rw [hconvert]
    exact .pure v
  · have hany := v.isAny_kind e.world
    have hconverted : ((Code.convert (.const v) k).run h).Gives e (v.convert e.world k) := by
      rw [Code.run]
      exact (Flow.Gives.pure v).bind fun v => .look fun w => v.convert w k
    unfold coerceTo
    rw [show (Typed.const e.world v).kind = v.kind e.world from rfl, if_neg hassign]
    cases k with
    | bool => exact absurd (Kind.assignable_bool hany hcost) hassign
    | text => exact absurd (Kind.assignable_text hany hcost) hassign
    | _ => exact ⟨_, if_pos hcost, hconverted⟩

namespace Code

theorem gives_const (vs : List Value) : (Code.runAll h (vs.map .const)).Gives e (.ok vs) := by
  induction vs with
  | nil => exact .pure []
  | cons v vs ih =>
    rw [List.map_cons, Code.runAll]
    exact (Flow.Gives.pure v).bind fun v => ih.bind fun vs => .pure (v :: vs)

end Code

namespace Setting

theorem gives_coerceArgs {vs : List Value} {params : List Kind}
    (hpass : Selection.Passes params (vs.map (Value.kind e.world))) (span : Span) :
    ∃ codes, coerceArgs span (vs.map (Typed.const e.world)) params = .ok codes ∧
      (Code.runAll h codes).Gives e (Host.convertArgs e.world params vs) := by
  induction vs generalizing params with
  | nil =>
    cases hpass
    exact ⟨[], rfl, .pure []⟩
  | cons v vs ih =>
    cases hpass with
    | cons hcost hpass =>
      obtain ⟨t, ht, hrun⟩ := Typed.gives_coerceTo (h := h) hcost span
      obtain ⟨codes, hcodes, hruns⟩ := ih hpass
      refine ⟨t.code :: codes, ?_, ?_⟩
      · rw [List.map_cons, coerceArgs, ht, hcodes]
        rfl
      · rw [Code.runAll, Host.convertArgs]
        exact hrun.bind fun v => hruns.bind fun vs => .pure (v :: vs)

end Setting

namespace Flow

variable {α β : Type}

theorem act_bind (a : Act α) (f : α → Act β) (e : Env) : act (a >>= f) e = (act a >>= fun x => act (f x)) e := by
  rw [Flow.bind_apply]
  unfold act
  rw [Act.bind_apply]
  cases a e.world with
  | mk r w => cases r <;> rfl

theorem act_ofWorld (f : World → Except Failure α) : act (Act.ofWorld f) = look f := by
  funext e
  unfold act look Act.ofWorld
  cases f e.world <;> rfl

end Flow

theorem Setting.run_callMethodOn {m : Method} {args : List Value} {receiver : Code} {t : Typed} {span : Span}
    (hpass : Selection.Passes m.params (args.map (Value.kind e.world))) (ho : o.isNull = false)
    (hreceiver : receiver.run h e = (.ok o, e))
    (ht : callMethodOn receiver m (args.map (Typed.const e.world)) span = .ok t) :
    t.code.run h e = Flow.act (Host.runMethod m o args) e := by
  obtain ⟨codes, hcodes, hruns⟩ := gives_coerceArgs (h := h) hpass span
  unfold callMethodOn at ht
  rw [hcodes] at ht
  cases ht
  have hlook : (Flow.look fun w => Host.convertArgs w m.params args).Gives e
      (Host.convertArgs e.world m.params args) := .look _
  rw [Code.run, Flow.bind_apply, hreceiver]
  dsimp only
  rw [ho, Bool.false_and, if_neg Bool.false_ne_true]
  unfold Host.runMethod
  rw [Flow.act_bind, Flow.act_ofWorld, Flow.bind_apply, Flow.bind_apply, hruns, hlook]

theorem gives_memberOf {receiver : Code} {qualifier : Option String} {span : Span} {callee : Typed}
    (ho : o.isNull = false) (hreceiver : receiver.run h e = (.ok o, e))
    (hcallee : memberOf h e.world ⟨⟨receiver, o.kind e.world⟩, name, qualifier, span, cs, true⟩ = some callee) :
    (callee.code.run h).Gives e ((h.member cs o name e.world).map (·.getD .null)) := by
  have hgives : (receiver.run h).Gives e (.ok o) := hreceiver
  have hany := o.isAny_kind e.world
  have hnull := o.isNull_kind e.world
  rw [ho] at hnull
  unfold memberOf at hcallee
  dsimp only at hcallee
  split at hcallee
  · next hk => simp [hk, Kind.isAny] at hany
  · next hk => simp [hk, Kind.isNull] at hnull
  · obtain ⟨t, ht, hcallee⟩ := Option.bind_eq_some_iff.1 hcallee
    cases hfield : t.field? cs name with
    | some f =>
      simp only [hfield, Option.pure_def, Option.some.injEq] at hcallee
      subst hcallee
      have hmember : h.member cs o name e.world = (f.read e.world o).map some := by
        simp [Host.member, ho, ht, hfield]
      have hread := Code.gives_field f hgives
      rw [hmember]
      have hsame : ((Except.ok o : Except Failure Value) >>= fun v =>
          if v.isNull then .ok .null else f.read e.world v) =
          ((f.read e.world o).map some).map (·.getD .null) := by
        simp only [bind, Except.bind, ho]
        cases f.read e.world o <;> rfl
      rw [← hsame]
      exact hread
    | none =>
      cases hstatic : t.static? cs name with
      | some m =>
        simp only [hfield, hstatic, Option.pure_def, Option.some.injEq] at hcallee
        subst hcallee
        have hmember : h.member cs o name e.world = .ok (some m.value) := by
          simp [Host.member, ho, ht, hfield, hstatic]
        rw [hmember]
        exact .pure m.value
      | none =>
        simp only [hfield, hstatic] at hcallee
        split at hcallee
        · obtain ⟨k, -, hcallee⟩ := Option.bind_eq_some_iff.1 hcallee
          cases hcallee
          exact Code.gives_property hgives
        · cases hcallee

theorem memberOf_undescribed {w : World} {r : NameRequest} (hany : r.receiver.kind.isAny = false)
    (hnull : r.receiver.kind.isNull = false) (hnone : h.describe w r.receiver.kind = none) :
    memberOf h w r = none := by
  unfold memberOf
  split
  · next hk => simp [hk, Kind.isAny] at hany
  · next hk => simp [hk, Kind.isNull] at hnull
  · rw [hnone]
    rfl

/-- Where no method of the name takes the arguments, there is none of that name, and its member is not null. -/
def Host.Settled (h : Host) (w : World) (cs : Bool) (o : Value) (name : String) (args : List Value) : Prop :=
  ∀ t, h.describe w (o.kind w) = some t →
    Selection.select (t.methodsNamed cs name) (args.map (Value.kind w)) = .none →
    t.hasMethod cs name = false ∧ ∀ found, h.member cs o name w = .ok found → (found.getD .null).isNull = false

namespace Host

variable {args : List Value} {t : HostType} {w : World}

theorem invoke_method (ho : o.isNull = false) (ht : h.describe w (o.kind w) = some t) {m : Method}
    (hm : Selection.select (t.methodsNamed cs name) (args.map (Value.kind w)) = .exact m ∨
      Selection.select (t.methodsNamed cs name) (args.map (Value.kind w)) = .converted m) :
    h.invoke cs o name args w = runMethod m o args w := by
  unfold invoke
  rw [Act.bind_apply, show (get : Act World) w = (.ok w, w) from rfl]
  dsimp only
  rw [ho, if_neg Bool.false_ne_true, ht]
  dsimp only
  obtain hm | hm := hm <;> rw [hm]

theorem invoke_member (ho : o.isNull = false) (ht : h.describe w (o.kind w) = some t)
    (hnone : Selection.select (t.methodsNamed cs name) (args.map (Value.kind w)) = .none)
    (hmethod : t.hasMethod cs name = false) :
    ∃ answer : Option Value → Act Value, (∀ callee, answer (some callee) = h.callValue callee name args) ∧
      h.invoke cs o name args w = (Act.ofWorld (h.member cs o name) >>= answer) w := by
  apply Exists.intro
  constructor
  rotate_left
  · unfold invoke
    rw [Act.bind_apply, show (get : Act World) w = (.ok w, w) from rfl]
    dsimp only
    rw [ho, if_neg Bool.false_ne_true, ht]
    dsimp only
    rw [hnone]
    dsimp only
    rw [hmethod, if_neg Bool.false_ne_true]
  · exact fun _ => rfl

end Host

namespace Setting

variable {s : Setting} {receiver : Code} {args : List Value} {nameSpan span : Span} {t : Typed}

theorem run_callTyped {info : HostType} {callee : Typed} (ho : o.isNull = false)
    (hinfo : h.describe e.world (o.kind e.world) = some info)
    (hnone : Selection.select (info.methodsNamed cs name) (args.map (Value.kind e.world)) = .none)
    (hsettled : h.Settled e.world cs o name args)
    (hcallee : (callee.code.run h).Gives e ((h.member cs o name e.world).map (·.getD .null)))
    (ht : callTyped callee name (args.map (Typed.const e.world)) span = .ok t) :
    t.code.run h e = Flow.act (h.invoke cs o name args) e := by
  obtain ⟨hmethod, hvalue⟩ := hsettled info hinfo hnone
  obtain ⟨answer, hanswer, hinvoke⟩ := Host.invoke_member (h := h) ho hinfo hnone hmethod
  have hact : Flow.act (h.invoke cs o name args) e = Flow.act (Act.ofWorld (h.member cs o name) >>= answer) e := by
    unfold Flow.act
    rw [hinvoke]
  have hcode : t.code = .callValue callee.code name (args.map .const) := by
    have hargs : (args.map (Typed.const e.world)).map (·.code) = args.map Code.const := by
      rw [List.map_map]
      rfl
    unfold callTyped at ht
    rw [hargs] at ht
    split at ht <;> cases ht <;> rfl
  have hlook : (Flow.look (h.member cs o name)).Gives e (h.member cs o name e.world) := .look _
  rw [hact, hcode, Code.run, Flow.bind_apply, hcallee, Flow.act_bind, Flow.act_ofWorld, Flow.bind_apply, hlook]
  cases hmember : h.member cs o name e.world with
  | error f => rfl
  | ok found =>
    have hfound := hvalue found hmember
    cases found with
    | none => cases hfound
    | some v =>
      have hv : v.isNull = false := hfound
      have hargs : (Code.runAll h (args.map .const)).Gives e (.ok args) := Code.gives_const args
      dsimp only [Except.map, Except.mapError, Option.getD_some]
      rw [hv, if_neg Bool.false_ne_true, Flow.bind_apply, hargs, hanswer]
      rfl

theorem callMember_cases {ts : List Typed} {k : Kind} (hstrict : s.strict = true) (hresolvers : s.resolvers = [])
    (hany : k.isAny = false) (hnull : k.isNull = false)
    (ht : s.callMember ⟨receiver, k⟩ name nameSpan ts span = .ok t) :
    ∃ info, s.host.describe s.world k = some info ∧
      ((∃ m, (Selection.select (info.methodsNamed s.caseSensitive name) (ts.map (·.kind)) = .exact m ∨
          Selection.select (info.methodsNamed s.caseSensitive name) (ts.map (·.kind)) = .converted m) ∧
          callMethodOn receiver m ts span = .ok t) ∨
        ∃ callee, Selection.select (info.methodsNamed s.caseSensitive name) (ts.map (·.kind)) = .none ∧
          memberOf s.host s.world (s.request ⟨receiver, k⟩ name none nameSpan) = some callee ∧
          callTyped callee name ts span = .ok t) := by
  have hresolve (r : NameRequest) : s.resolve r = .ok (memberOf s.host s.world r) := by
    unfold resolve
    rw [hresolvers]
    rfl
  have hrefused (f : Fault) (span : Span) : s.unresolved f span = .error (.of f span) := by
    unfold unresolved
    exact if_pos hstrict
  unfold callMember at ht
  dsimp only at ht
  split at ht
  · cases hany
  · cases hnull
  · rw [hresolve] at ht
    cases hinfo : s.host.describe s.world k with
    | none =>
      rw [hinfo, memberOf_undescribed hany hnull hinfo, hrefused] at ht
      cases ht
    | some info =>
      refine ⟨info, rfl, ?_⟩
      rw [hinfo] at ht
      dsimp only at ht
      obtain ⟨chosen, hchosen, ht⟩ := exists_of_bind_ok ht
      unfold selectMethod at hchosen
      split at hchosen
      · next m hm =>
        cases hchosen
        exact .inl ⟨m, .inl hm, ht⟩
      · next m hm =>
        cases hchosen
        exact .inl ⟨m, .inr hm, ht⟩
      · next hm =>
        cases hchosen
        cases hcallee : memberOf s.host s.world (s.request ⟨receiver, k⟩ name none nameSpan) with
        | some callee =>
          rw [hcallee] at ht
          exact .inr ⟨callee, hm, rfl, ht⟩
        | none =>
          rw [hcallee, hrefused] at ht
          dsimp only [bind, Except.bind] at ht
          split at ht <;> cases ht
      · cases hchosen

/-- A call that is settled for the kinds of its receiver and of its arguments gives what the late call gives, unless
no method of the name takes the arguments while there are such methods, or while the member of the name is null. -/
theorem settled_call_gives_late_result (hstrict : s.strict = true) (hresolvers : s.resolvers = [])
    (hworld : e.world = s.world) (hreceiver : receiver.run s.host e = (.ok o, e))
    (hsettled : s.host.Settled s.world s.caseSensitive o name args)
    (ht : s.callMember ⟨receiver, o.kind s.world⟩ name nameSpan (args.map s.const) span = .ok t) :
    t.code.run s.host e = Flow.act (s.host.invoke s.caseSensitive o name args) e := by
  have hconst : args.map s.const = args.map (Typed.const e.world) := by
    rw [hworld]
    rfl
  have hkinds : (args.map (Typed.const e.world)).map (·.kind) = args.map (Value.kind e.world) := by
    rw [List.map_map]
    rfl
  cases hnull : o.isNull with
  | true =>
    obtain rfl : o = .null := by cases o <;> simp_all [Value.isNull]
    cases ht
    have hargs : (Code.runAll s.host (args.map .const)).Gives e (.ok args) := Code.gives_const args
    have hcodes : (args.map s.const).map (·.code) = args.map Code.const := by
      rw [List.map_map]
      rfl
    rw [hcodes, Code.run, Flow.bind_apply, hreceiver]
    dsimp only
    rw [Flow.bind_apply, hargs, hstrict]
    rfl
  | false =>
    rw [hconst, ← hworld] at ht
    rw [← hworld] at hsettled
    have hany := o.isAny_kind e.world
    have hkind : (o.kind e.world).isNull = false := (o.isNull_kind e.world).trans hnull
    obtain ⟨info, hinfo, hcases⟩ := callMember_cases hstrict hresolvers hany hkind ht
    rw [← hworld] at hinfo hcases
    rw [hkinds] at hcases
    obtain ⟨m, hm, hcall⟩ | ⟨callee, hnone, hcallee, hcall⟩ := hcases
    · rw [run_callMethodOn (Selection.passes_of_select hm) hnull hreceiver hcall]
      unfold Flow.act
      rw [Host.invoke_method hnull hinfo hm]
    · unfold request at hcallee
      rw [hstrict] at hcallee
      exact run_callTyped hnull hinfo hnone hsettled (gives_memberOf hnull hreceiver hcallee) hcall

/-- Two methods of one name, of which the one that takes a wider integer is chosen. -/
theorem settled_call_gives_late_result_widened :
    let scale (params : List Kind) : Method := ⟨"scale", params, .int .i64, false, fun _ args => pure (args.headD .null)⟩
    let type : HostType := { HostType.named ⟨none, "Meter"⟩ with methods := [scale [.int .i64], scale [.int .i64, .text]] }
    let host : Host := ⟨#[type], #[], none⟩
    let w : World := { World.empty with objects := #[⟨.declared 0 ⟨none, "Meter"⟩, none, none, none, none⟩] }
    let s : Setting := ⟨host, w, .init host w .any, .empty, [], [], true, true⟩
    let e : Env := .init (.object 0) 0 w
    host.Settled w true (.object 0) "scale" [.int 7 .i32] ∧
      ∃ t, s.callMember ⟨.context 0, (Value.object 0).kind w⟩ "scale" default [s.const (.int 7 .i32)] default = .ok t ∧
        t.code.run host e = (.ok (.int 7 .i64), e) ∧
        t.code.run host e = Flow.act (host.invoke true (.object 0) "scale" [.int 7 .i32]) e := by
  intro scale type host w s e
  have hsettled : host.Settled w true (.object 0) "scale" [.int 7 .i32] := by
    rintro _ ⟨⟩ hnone
    have hchosen :
        (Selection.select (type.methodsNamed true "scale") [.int .i32]) = .converted (scale [.int .i64]) := by
      rfl
    cases hchosen.symm.trans hnone
  obtain ⟨t, ht, hrun⟩ : ∃ t,
      s.callMember ⟨.context 0, (Value.object 0).kind w⟩ "scale" default [s.const (.int 7 .i32)] default = .ok t ∧
        t.code.run host e = (.ok (.int 7 .i64), e) := ⟨_, rfl, rfl⟩
  have hreceiver : (Code.context 0).run host e = (.ok (.object 0), e) := rfl
  exact ⟨hsettled, t, ht, hrun, settled_call_gives_late_result (s := s) rfl rfl rfl hreceiver hsettled ht⟩

/-- A function that is the member of a name is called where no method of that name takes the arguments, and a member
that is null gives null; the late calls fail. -/
theorem late_calls_refuse_members :
    let method : Method := ⟨"reading", [.int .i32, .int .i32], .int .i64, false, fun _ _ => pure .null⟩
    let field : Field := ⟨"reading", .function, fun _ _ => .ok (.function 0)⟩
    let type : HostType := { HostType.named ⟨none, "Meter"⟩ with fields := ⟨[("reading", field)]⟩, methods := [method] }
    let host : Host := ⟨#[type], #[fun args => pure (args.headD .null)], none⟩
    let w : World := { World.empty with
      objects := #[⟨.declared 0 ⟨none, "Meter"⟩, none, none, none, none⟩, .record ⟨[("f", .null)]⟩] }
    let s : Setting := ⟨host, w, .init host w .any, .empty, [], [], true, true⟩
    (∃ t, s.callMember ⟨.context 0, (Value.object 0).kind w⟩ "reading" default [s.const (.int 5 .i32)] default = .ok t ∧
      t.evaluate host (.object 0) w = (.ok (.int 5 .i32), w) ∧
      host.invoke true (.object 0) "reading" [.int 5 .i32] w =
        (.error (.notInvocable "reading" "no overload takes 1 argument(s) of these kinds"), w)) ∧
    ∃ t, s.callMember ⟨.context 0, (Value.object 1).kind w⟩ "f" default [s.const (.int 5 .i32)] default = .ok t ∧
      t.evaluate host (.object 1) w = (.ok .null, w) ∧
      host.invoke true (.object 1) "f" [.int 5 .i32] w =
        (.error (.notInvocable "f" "a value of kind 'null' is not a function"), w) :=
  ⟨⟨_, rfl, rfl, rfl⟩, _, rfl, rfl, rfl⟩

end Setting

end Stencil
