import Stencil.Proofs.Run.Settles
import Stencil.Proofs.Typing.Alike
/-!
Names that need not resolve. An expression compiled without strictness fails on an unresolved name in one place
only: at the first name of a dotted path, when it is asked of a context of unknown kind that has no such member.
-/
set_option autoImplicit false

namespace Stencil

/-- A run in one context that leaves it there, and fails on an unresolved name only if the name and the world in
which the run ends satisfy a condition. -/
def Flow.FailsAt {α : Type} (v : Value) (P : String → World → Prop) (x : Flow α) : Prop :=
  ∀ e, e.contexts = [v] → (x e).2.contexts = [v] ∧
    ∀ n, (x e).1 = .error (.fail (.unresolved n)) → P n (x e).2.world

namespace Flow.FailsAt

variable {α β : Type} {v : Value} {P : String → World → Prop} {x : Flow α}

theorem pure (a : α) : FailsAt v P (pure a) := fun _ he => ⟨he, nofun⟩

theorem get : FailsAt v P get := fun _ he => ⟨he, nofun⟩

theorem bind {f : α → Flow β} (hx : FailsAt v P x) (hf : ∀ a, FailsAt v P (f a)) : FailsAt v P (x >>= f) := by
  intro e he
  rw [bind_apply]
  obtain ⟨hcontexts, hfails⟩ := hx e he
  cases hr : x e with
  | mk r e₁ =>
    rw [hr] at hcontexts hfails
    cases r with
    | ok a => exact hf a e₁ hcontexts
    | error r =>
      refine ⟨hcontexts, ?_⟩
      rintro n ⟨⟩
      exact hfails n rfl

theorem look {f : World → Except Failure α} (h : ∀ w, Settles (f w)) : FailsAt v P (Flow.look f) := by
  intro e he
  have hsettles := h e.world
  unfold Flow.look
  cases hf : f e.world with
  | ok a => exact ⟨he, nofun⟩
  | error f =>
    refine ⟨he, ?_⟩
    rintro n ⟨⟩
    exact (hsettles n hf).elim

theorem act {a : Act α} (h : ∀ w, Settles (a w).1) : FailsAt v P (Flow.act a) := by
  intro e he
  have hsettles := h e.world
  unfold Flow.act
  cases ha : a e.world with
  | mk r w =>
    rw [ha] at hsettles
    cases r with
    | ok u => exact ⟨he, nofun⟩
    | error f =>
      refine ⟨he, ?_⟩
      rintro n ⟨⟩
      exact (hsettles n rfl).elim

theorem lenient (a : Act Value) : FailsAt v P (Flow.lenient false (Flow.act a)) := by
  intro e he
  unfold Flow.lenient Flow.act
  cases a e.world with
  | mk r w =>
    cases r with
    | ok u => exact ⟨he, nofun⟩
    | error f => cases f <;> exact ⟨he, nofun⟩

end Flow.FailsAt

/-- Code without strict names, but for names of the context under a condition. It makes use of members only that
fail on no unresolved name. -/
def Likeness.lenientBut (cs : Bool) (names : String → Prop) : Likeness where
  late c name cs' strict _ := strict = true → c = .context 0 ∧ cs' = cs ∧ names name
  texts := False
  field := Field.Settles
  method := Method.Settles
  writes _ _ := True

def Host.Lacks (h : Host) (cs : Bool) (names : String → Prop) (v : Value) (name : String) (w : World) : Prop :=
  names name ∧ h.member cs v name w = .ok none

section

variable {h : Host} {cs : Bool} {names : String → Prop} {v : Value}

theorem Code.run_context {e : Env} (he : e.contexts = [v]) : (Code.context 0).run h e = (.ok v, e) := by
  have hv : e.context 0 = v := by
    unfold Env.context
    rw [he]
    rfl
  rw [← hv]
  rfl

theorem Code.failsAt_lateMember (hh : h.Settles) {name : String} (hname : names name) :
    Flow.FailsAt v (h.Lacks cs names v) ((Code.lateMember (.context 0) name cs true).run h) := by
  intro e he
  have hsettles := hh.member cs v name e.world
  rw [Code.run, Flow.bind_apply, Code.run_context he]
  dsimp only
  rw [Flow.bind_apply]
  unfold Flow.look
  cases hm : h.member cs v name e.world with
  | error f =>
    refine ⟨he, ?_⟩
    rintro n ⟨⟩
    exact (hsettles n hm).elim
  | ok found =>
    cases found with
    | some u => exact ⟨he, nofun⟩
    | none =>
      refine ⟨he, ?_⟩
      rintro n ⟨⟩
      exact ⟨hname, hm⟩

theorem Code.failsAt_lateCall (hh : h.Settles) {name : String} {args : List Code} (hname : names name)
    (hargs : Flow.FailsAt v (h.Lacks cs names v) (Code.runAll h args)) :
    Flow.FailsAt v (h.Lacks cs names v) ((Code.lateCall (.context 0) name args cs true).run h) := by
  have hcall (vs : List Value) :
      Flow.FailsAt v (h.Lacks cs names v) (Flow.lenient true (Flow.act (h.invoke cs v name vs))) := by
    intro e he
    unfold Flow.lenient Flow.act
    cases hi : h.invoke cs v name vs e.world with
    | mk r w =>
      cases r with
      | ok u => exact ⟨he, nofun⟩
      | error f =>
        cases f with
        | unresolved n =>
          obtain ⟨rfl, rfl, hm⟩ := hh.invoke hi
          refine ⟨he, ?_⟩
          rintro _ ⟨⟩
          exact ⟨hname, hm⟩
        | _ => exact ⟨he, nofun⟩
  intro e he
  rw [Code.run, Flow.bind_apply, Code.run_context he]
  exact hargs.bind hcall e he

mutual

theorem Code.Alike.failsAt (hh : h.Settles) : {d : Nat} → {c c' : Code} →
    Code.Alike (.lenientBut cs names) [] d c c' → Flow.FailsAt v (h.Lacks cs names v) (c.run h)
  | _, _, _, .const u => .pure u
  | _, _, _, .context _ => .bind .get fun _ => .pure _
  | _, _, _, .slot hn => nomatch hn
  | _, _, _, .ofVariable frame name k cs' => .bind .get fun _ => .bind (.look (hh.member _ _ _)) fun _ =>
      .look fun w => Value.settles_fitted w _ _
  | _, _, _, @Code.Alike.lateMember _ _ _ c c' name cs' strict strict' hlate hc => by
    cases strict with
    | true =>
      obtain ⟨rfl, rfl, hname⟩ := hlate rfl
      exact failsAt_lateMember hh hname
    | false =>
      refine .bind (hc.failsAt hh) fun u => .bind (.look (hh.member _ _ _)) fun found => ?_
      cases found with
      | some u => exact .pure u
      | none => exact .pure _
  | _, _, _, .field hf hc => .bind (hc.failsAt hh) fun u =>
      iteInduction (fun _ => .pure _) fun _ => .look fun w => hf w u
  | _, _, _, .property hc => .bind (hc.failsAt hh) fun _ => .bind (.look (hh.member _ _ _)) fun _ => .pure _
  | _, _, _, .index hc hi => .bind (hc.failsAt hh) fun _ => .bind (hi.failsAt hh) fun _ =>
      .look fun w => (Host.gives_index w _ _).settles
  | _, _, _, .unary hc => .bind (hc.failsAt hh) fun _ => .look fun w => (UnaryOp.gives_apply _ w _).settles
  | _, _, _, .binary ha hb => .bind (ha.failsAt hh) fun _ => .bind (hb.failsAt hh) fun _ =>
      .look fun w => (BinaryOp.gives_apply _ w _ _).settles
  | _, _, _, .both ha hb => .bind (ha.failsAt hh) fun _ =>
      iteInduction (fun _ => .bind (hb.failsAt hh) fun _ => .pure _) fun _ => .pure _
  | _, _, _, .either ha hb => .bind (ha.failsAt hh) fun _ =>
      iteInduction (fun _ => .pure _) fun _ => .bind (hb.failsAt hh) fun _ => .pure _
  | _, _, _, .coalesce ha hb => .bind (ha.failsAt hh) fun _ =>
      iteInduction (fun _ => .bind (hb.failsAt hh) fun _ => .look fun w => Value.settles_fitted w _ _)
        fun _ => .bind (.pure _) fun _ => .look fun w => Value.settles_fitted w _ _
  | _, _, _, .choice ht hy hn => .bind (ht.failsAt hh) fun _ =>
      iteInduction (fun _ => hy.failsAt hh) fun _ => hn.failsAt hh
  | _, _, _, .toBool hc => .bind (hc.failsAt hh) fun _ => .pure _
  | _, _, _, .toText hc => .bind (hc.failsAt hh) fun _ => .bind .get fun _ => .pure _
  | _, _, _, .convert hc => .bind (hc.failsAt hh) fun _ => .look fun w => (Value.gives_convert w _ _).settles
  | _, _, _, @Code.Alike.lateCall _ _ _ c c' name args args' cs' strict strict' hlate hc hargs => by
    have hargs := hargs.failsAt hh
    cases strict with
    | true =>
      obtain ⟨rfl, rfl, hname⟩ := hlate rfl
      exact failsAt_lateCall hh hname hargs
    | false => exact .bind (hc.failsAt hh) fun _ => .bind hargs fun _ => .lenient _
  | _, _, _, .method hm hc hargs => .bind (hc.failsAt hh) fun u =>
      iteInduction (fun _ => .pure _) fun _ => .bind (hargs.failsAt hh) fun vs => .act (hm u vs)
  | _, _, _, .callValue hc hargs => .bind (hc.failsAt hh) fun f =>
      iteInduction (fun _ => .pure _) fun _ => .bind (hargs.failsAt hh) fun vs => .act (hh.callValue f _ vs)
  | _, _, _, .fragment _ hsnapshot _ _ _ => nomatch hsnapshot
  | _, _, _, .rendered htexts _ _ => htexts.elim

theorem Code.AlikeAll.failsAt (hh : h.Settles) : {d : Nat} → {args args' : List Code} →
    Code.AlikeAll (.lenientBut cs names) [] d args args' → Flow.FailsAt v (h.Lacks cs names v) (Code.runAll h args)
  | _, _, _, .nil => .pure []
  | _, _, _, .cons hc hcs => .bind (hc.failsAt hh) fun _ => .bind (hcs.failsAt hh) fun _ => .pure _

end

end

def Likeness.lenient : Likeness :=
  ⟨fun _ _ _ strict _ => strict = false, False, Field.Settles, Method.Settles, fun _ _ => True⟩

theorem Likeness.lenient_within (cs : Bool) (names : String → Prop) :
    Likeness.lenient.Within (.lenientBut cs names) where
  late _ _ _ _ _ hfalse := by
    intro htrue
    cases htrue.symm.trans hfalse
  texts h := h
  field _ h := h
  method _ h := h
  writes _ _ h := h

namespace Setting

variable {s : Setting} {k : Kind}

/-- In one context, an expression fails on an unresolved name only at the first name of a dotted path. -/
theorem failsAt_elaborate (hlenient : s.strict = false) (hscope : s.scope = .init s.host s.world k)
    (hresolvers : ∀ f ∈ s.resolvers, f.Blind .lenient) (hhost : s.host.Settles) {x : Expr} {t : Typed}
    (ht : s.elaborate x = .ok t) (v : Value) :
    Flow.FailsAt v (s.host.Lacks s.caseSensitive (fun n => n ∈ x.heads ∧ k.Late) v) (t.code.run s.host) := by
  have hkind : s.receiver.kind = k := by
    unfold receiver
    rw [hscope]
    rfl
  -- The setting is compared with itself: what is said of pairs of codes here is about the first one only.
  have hs : Setting.Alike (.lenientBut s.caseSensitive fun n => n ∈ x.heads ∧ k.Late) [] s s.scope false := by
    refine ⟨?_, nofun, fun f hf => ⟨hlenient.symm, (hresolvers f hf).mono (Likeness.lenient_within _ _)⟩, ?_⟩
    · rw [hscope]
      exact ⟨.nil, .open_ _ _, rfl, rfl⟩
    · exact fun k t hk => ⟨(hhost.describe hk).field, (hhost.describe hk).method⟩
  have hlate (c : Code) (n : String) :
      (Likeness.lenientBut s.caseSensitive fun n => n ∈ x.heads ∧ k.Late).late c n s.caseSensitive s.strict false := by
    intro hstrict
    cases hstrict.symm.trans hlenient
  have hheads (n : String) (hn : n ∈ x.heads) (hk : s.receiver.kind.Late) :
      (Likeness.lenientBut s.caseSensitive fun n => n ∈ x.heads ∧ k.Late).late (.context 0) n s.caseSensitive true
        true := fun _ => ⟨rfl, rfl, hn, hkind ▸ hk⟩
  obtain ⟨t', -, halike⟩ := hs.elaborate hlate x hheads t ht
  exact halike.code.failsAt hhost

theorem lookup_late (hscope : s.scope = .init s.host s.world k) (hk : k.Late) (name : String) :
    s.lookup name = none := by
  unfold lookup Scope.lookup
  rw [hscope]
  obtain rfl | rfl := hk
  all_goals
    unfold Scope.init Scope.frames Scope.lookupIn Scope.meaning? Frame.find?
    dsimp only [List.nil_append, Frame.open_]
    rw [Table.lookup_empty]
    rfl

def lateMembers (s : Setting) (c : Code) (ms : List Expr.Segment) : Code :=
  ms.foldl (fun c m => .lateMember c m.name s.caseSensitive s.strict) c

theorem members_late (hresolvers : s.resolvers = []) (c : Code) (before ms : List Expr.Segment) :
    s.members ⟨c, .any⟩ before ms = .ok ⟨s.lateMembers c ms, .any⟩ := by
  induction ms generalizing c before with
  | nil => rfl
  | cons m ms ih =>
    have hmember : s.member ⟨c, .any⟩ m.name m.span (some (joinPath before)) =
        .ok ⟨.lateMember c m.name s.caseSensitive s.strict, .any⟩ := by
      unfold member resolve
      rw [hresolvers]
      rfl
    rw [members, hmember]
    exact ih _ _

theorem run_lateMembers (h : Host) {c : Code} {e e' : Env} {r : Halt} (hc : c.run h e = (.error r, e'))
    (ms : List Expr.Segment) : (s.lateMembers c ms).run h e = (.error r, e') := by
  induction ms generalizing c with
  | nil => exact hc
  | cons m ms ih =>
    refine ih ?_
    rw [Code.run, Flow.bind_apply, hc]

/-- The first name of a path that names no type is asked of a context of unknown kind, and strictly. -/
theorem path_late (hscope : s.scope = .init s.host s.world k) (hk : k.Late) (hresolvers : s.resolvers = [])
    (first : Expr.Segment) (more : List Expr.Segment)
    (htype : s.typeFront? "" (first :: more) (first :: more).length = none)
    (himplied : s.impliedType (first :: more) = .ok none) :
    s.path first (first :: more) =
      .ok ⟨s.lateMembers (.lateMember (.context 0) first.name s.caseSensitive true) more, .any⟩ := by
  have hlookup := lookup_late hscope hk first.name
  have htry : ({ s with strict := true } : Setting).tryName first.name first.span =
      .ok (some ⟨.lateMember (.context 0) first.name s.caseSensitive true, .any⟩) := by
    unfold tryName
    rw [show ({ s with strict := true } : Setting).lookup first.name = none from hlookup]
    unfold resolve
    rw [show ({ s with strict := true } : Setting).resolvers = [] from hresolvers]
    unfold resolveWith memberOf request receiver
    dsimp only
    rw [hscope]
    obtain rfl | rfl := hk <;> rfl
  have hhead : s.head first (first :: more) =
      .ok (some (.value ⟨.lateMember (.context 0) first.name s.caseSensitive true, .any⟩, 1)) := by
    unfold head
    rw [hlookup, htry, himplied, htype]
    rfl
  unfold path
  rw [hhead]
  exact members_late hresolvers _ _ _

/-- Without strictness, and with members and functions of the host that fail on no unresolved name, an expression
fails on one only at the first name of a dotted path, in a context of unknown kind that has no such member. There
such a path does fail. -/
theorem lenient_fails_only_at_path_heads (hlenient : s.strict = false)
    (hscope : s.scope = .init s.host s.world k) (hresolvers : ∀ f ∈ s.resolvers, f.Blind .lenient)
    (hhost : s.host.Settles) :
    (∀ x t, s.elaborate x = .ok t → ∀ v w n w', t.evaluate s.host v w = (.error (.unresolved n), w') →
      n ∈ x.heads ∧ k.Late ∧ s.host.member s.caseSensitive v n w' = .ok none) ∧
    ∀ (target : Expr) (first last : Expr.Segment) (more : List Expr.Segment) (span : Span),
      target.path? = some (first :: more) → k.Late → s.resolvers = [] →
      s.typeFront? "" (first :: more ++ [last]) (first :: more ++ [last]).length = none →
      s.impliedType (first :: more ++ [last]) = .ok none →
      ∃ t, s.elaborate (.member target last.name last.span span) = .ok t ∧ ∀ v w,
        t.evaluate s.host v w = (.error (.unresolved first.name), w) ↔
          s.host.member s.caseSensitive v first.name w = .ok none := by
  have hfails (x : Expr) (t : Typed) (ht : s.elaborate x = .ok t) (v : Value) (w : World) (n : String) (w' : World)
      (hrun : t.evaluate s.host v w = (.error (.unresolved n), w')) :
      n ∈ x.heads ∧ k.Late ∧ s.host.member s.caseSensitive v n w' = .ok none := by
    obtain ⟨-, hat⟩ := failsAt_elaborate hlenient hscope hresolvers hhost ht v (.init v 0 w) rfl
    unfold Typed.evaluate at hrun
    split at hrun
    · cases hrun
    · cases hrun
    · next f e he =>
      cases hrun
      rw [he] at hat
      obtain ⟨⟨hheads, hk⟩, hmember⟩ := hat n rfl
      exact ⟨hheads, hk, hmember⟩
  refine ⟨hfails, fun target first last more span hpath hk hnone htype himplied => ?_⟩
  have ht : s.elaborate (.member target last.name last.span span) =
      .ok ⟨s.lateMembers (.lateMember (.context 0) first.name s.caseSensitive true) (more ++ [last]), .any⟩ := by
    rw [elaborate, hpath]
    exact path_late hscope hk hnone first _ htype himplied
  refine ⟨_, ht, fun v w => ⟨fun hrun => (hfails _ _ ht v w _ _ hrun).2.2, fun hmember => ?_⟩⟩
  have hhead : (Code.lateMember (.context 0) first.name s.caseSensitive true).run s.host (.init v 0 w) =
      (.error (.fail (.unresolved first.name)), .init v 0 w) := by
    rw [Code.run, Flow.bind_apply, Code.run_context rfl]
    dsimp only
    rw [Flow.bind_apply]
    unfold Flow.look
    rw [show (Env.init v 0 w).world = w from rfl, hmember]
    rfl
  unfold Typed.evaluate
  rw [run_lateMembers s.host hhead]
  rfl

/-- A path of two names fails in a number and does not in a record with the first name. -/
theorem lenient_fails_only_at_path_heads_number :
    let h : Host := ⟨#[], #[fun _ => pure .null], none⟩
    let w : World := { World.empty with objects := #[.record ⟨[("a", .text "x")]⟩] }
    let s : Setting := ⟨h, w, .init h w .any, .empty, [], [], false, false⟩
    s.strict = false ∧ s.scope = .init s.host s.world .any ∧ (∀ f ∈ s.resolvers, f.Blind .lenient) ∧
      s.host.Settles ∧ Kind.any.Late ∧
      ∃ t, s.elaborate (.member (.name "a" default) "b" default default) = .ok t ∧
        t.evaluate h (.int 5 .i32) w = (.error (.unresolved "a"), w) ∧
        t.evaluate h (.object 0) w ≠ (.error (.unresolved "a"), w) := by
  intro h w s
  have hhost : h.Settles := by
    refine ⟨fun id => ⟨fun hf => ?_, fun m hm => ?_⟩, fun f hf args w => ?_⟩
    · have htype : h.type id = .named default := by simp [h, Host.type]
      rw [htype] at hf
      cases (Table.lookup_empty _ _).symm.trans hf
    · have htype : h.type id = .named default := by simp [h, Host.type]
      rw [htype] at hm
      cases hm
    · obtain rfl := Array.mem_singleton.1 hf
      exact .ok _
  obtain ⟨-, hpaths⟩ := lenient_fails_only_at_path_heads (s := s) rfl rfl nofun hhost
  obtain ⟨t, ht, hrun⟩ := hpaths (.name "a" default) ⟨"a", default⟩ ⟨"b", default⟩ [] default rfl (.inl rfl) rfl
    rfl rfl
  refine ⟨rfl, rfl, nofun, hhost, .inl rfl, t, ht, (hrun _ _).2 rfl, fun hfail => ?_⟩
  cases (hrun _ _).1 hfail

/-- An expression whose names need not resolve, and which yet fails on an unresolved name. -/
theorem lenient_path_unresolved :
    let s : Setting := ⟨.empty, .empty, .init .empty .empty .any, .empty, [], [], false, false⟩
    ∃ t, s.elaborateText "a.b" 0 = .ok t ∧
      (t.evaluate .empty (.int 5 .i32) .empty).1 = .error (.unresolved "a") := by
  intro s
  have hfailure : (s.elaborateText "a.b" 0).toOption.map (fun t =>
      match (t.evaluate .empty (.int 5 .i32) .empty).1 with
      | .error f => some f
      | .ok _ => none) = some (some (.unresolved "a")) := by decide +kernel
  obtain ⟨t, ht, hfailure⟩ := Option.map_eq_some_iff.1 hfailure
  refine ⟨t, ok_of_toOption ht, ?_⟩
  split at hfailure
  · next f hf =>
    cases hfailure
    exact hf
  · cases hfailure

end Setting

end Stencil
