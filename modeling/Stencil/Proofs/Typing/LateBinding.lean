import Stencil.Proofs.Typing.Members
import Stencil.Proofs.Typing.Soundness
import Stencil.Proofs.Typing.Unresolved
set_option autoImplicit false

namespace Stencil

variable {h : Host} {R : Nat → Prop} {e : Env} {cs : Bool} {name : String}

namespace Code

variable {v u : Value}

theorem gives_context (he : e.contexts = [v]) : ((Code.context 0).run h).Gives e (.ok v) := run_context he

theorem gives_lateMember_of_member (he : e.contexts = [v]) (hm : h.member cs v name e.world = .ok (some u))
    (strict : Bool) : ((Code.lateMember (.context 0) name cs strict).run h).Gives e (.ok u) := by
  unfold Flow.Gives
  rw [Code.run, Flow.bind_apply, gives_context he]
  dsimp only [Except.mapError]
  rw [Flow.bind_apply, Flow.Gives.look, hm]
  rfl

theorem gives_variable (he : e.contexts = [v]) (hm : h.member cs v name e.world = .ok (some u)) {k : Kind}
    (hk : k.Exact e.world u) : ((Code.variable 0 name k cs).run h).Gives e (.ok u) := by
  have hframe : e.frame 0 = v := by
    unfold Env.frame
    rw [he]
    rfl
  have hfitted : u.fitted e.world k = .ok u := by
    obtain rfl | rfl := hk
    · simp [Value.fitted, Kind.isAny]
    · unfold Value.fitted
      split
      · rfl
      · unfold Value.convert
        exact if_pos (Kind.assignable_refl _)
  unfold Flow.Gives
  rw [Code.run]
  change (do
    let found ← Flow.look (h.member cs (e.frame 0) name)
    Flow.look fun w => (found.getD .null).fitted w k : Flow Value) e = _
  rw [hframe, Flow.bind_apply, Flow.Gives.look, hm]
  dsimp only [Except.mapError, Option.getD_some]
  rw [Flow.Gives.look, hfitted]
  rfl

end Code

theorem Kind.Coarser.ofRecords {k j : Kind} (hk : k.Coarser j) (hj : j.OfRecords R) : k.OfRecords R := by
  obtain rfl | rfl := hk
  · trivial
  · exact hj

namespace Setting

variable {s : Setting} {t t₁ t₂ : Typed} {span : Span}

theorem of_unary_ok {op : UnaryOp} (ht : unary op t₁ span = .ok t) :
    ∃ k, op.kind t₁.kind = .ok k ∧ t = ⟨.unary op t₁.code, k⟩ := by
  unfold unary at ht
  split at ht
  · next k hk => cases ht; exact ⟨k, hk, rfl⟩
  · cases ht

theorem of_binary_ok {op : BinaryOp} (ht : binary op t₁ t₂ span = .ok t) :
    ∃ k, op.kind t₁.kind t₂.kind = .ok k ∧ t = ⟨binaryCode op t₁.code t₂.code k, k⟩ := by
  unfold binary at ht
  split at ht
  · next k hk => cases ht; exact ⟨k, hk, rfl⟩
  · cases ht

/-- What stands at a position of a text is a text, and nothing is known of what stands at another one. -/
theorem of_index_ok (hk : t₁.kind.OfRecords R) (ht : s.index t₁ t₂ span = .ok t) :
    t.code = .index t₁.code t₂.code ∧ (t₁.kind ≠ .text ∧ t.kind = .any ∨ t₁.kind = .text ∧ t.kind = .text) := by
  unfold index at ht
  dsimp only at ht
  split at ht
  · next k hkind =>
    cases ht
    refine ⟨rfl, ?_⟩
    cases hk₁ : t₁.kind with
    | text =>
      rw [hk₁] at hkind
      cases hkind
      exact .inr ⟨rfl, rfl⟩
    | object o =>
      rw [hk₁] at hk hkind
      cases o with
      | declared => exact hk.elim
      | record ref =>
        cases hkind
        exact .inl ⟨nofun, rfl⟩
    | list j =>
      rw [hk₁] at hk hkind
      cases hk
      cases hkind
      exact .inl ⟨nofun, rfl⟩
    | any | null =>
      rw [hk₁] at hkind
      cases hkind
      exact .inl ⟨nofun, rfl⟩
    | _ =>
      rw [hk₁] at hkind
      cases hkind
  · cases ht

end Setting

namespace BinaryOp

variable {op : BinaryOp} {w : World} {a v : Value} {r r' : Except Failure Value}

/-- What an operator makes of its left operand and of what becomes of its right one, which some do not ask for. -/
def join (op : BinaryOp) (w : World) (a : Value) (r : Except Failure Value) : Except Failure Value :=
  match op with
  | and => if a.truth then r.map fun b => .bool b.truth else .ok (.bool false)
  | or => if a.truth then .ok (.bool true) else r.map fun b => .bool b.truth
  | op => r >>= op.apply w a

theorem join_mono (hr : ∀ b, r = .ok b → r' = .ok b) (h : op.join w a r = .ok v) : op.join w a r' = .ok v := by
  cases r with
  | ok b =>
    rw [hr b rfl]
    exact h
  | error f =>
    cases op with
    | and | or =>
      unfold join at h ⊢
      dsimp only at h ⊢
      split at h
      all_goals simp_all [Except.map]
    | _ => cases h

theorem of_join_ok (h : op.join w a r = .ok v) :
    (op = and ∨ op = or) ∧ (∃ b, v = .bool b) ∨ ∃ b, r = .ok b ∧ op.apply w a b = .ok v := by
  cases op with
  | and | or =>
    refine .inl ⟨by simp, ?_⟩
    unfold join at h
    dsimp only at h
    split at h
    all_goals first
      | exact (exists_of_map_ok h).elim fun b hb => ⟨_, hb.2.symm⟩
      | cases h; exact ⟨_, rfl⟩
  | _ => exact .inr (exists_of_bind_ok h)

end BinaryOp

def Typed.ofName (h : Host) (w : World) (ref : Nat) (cs : Bool) (name : String) : Typed :=
  match h.variableKind? w cs name (.object (.record ref)) with
  | some k => ⟨.variable 0 name k cs, k⟩
  | none => ⟨.property (.context 0) name cs, .any⟩

/-- Two compilations of an expression, of which the first knows more. Where the second gives a value made of
records, so does the first, and knows nothing of it or exactly its kind. -/
structure Typed.Refines (h : Host) (e : Env) (R : Nat → Prop) (t u : Typed) : Prop where
  kind : u.kind.Coarser t.kind
  records : t.kind.OfRecords R
  run : ∃ r r', (u.code.run h).Gives e r ∧ (t.code.run h).Gives e r' ∧
    ∀ v, r = .ok v → r' = .ok v ∧ t.kind.Exact e.world v ∧ v.OfRecords R

namespace Typed.Refines

variable {t u : Typed}

theorem const {v : Value} (hw : e.world.Records R) (hv : v.OfRecords R) :
    Refines h e R (.const e.world v) (.const e.world v) where
  kind := .inr rfl
  records := hw.kind hv
  run := by
    refine ⟨_, _, .pure v, .pure v, ?_⟩
    rintro _ ⟨⟩
    exact ⟨rfl, .inr rfl, hv⟩

theorem of_operand {t₁ u₁ : Typed} {take take' : Value → Except Failure Value} (h₁ : Refines h e R t₁ u₁)
    (hkind : u.kind.Coarser t.kind) (hrecords : t.kind.OfRecords R)
    (hu : ∀ r, (u₁.code.run h).Gives e r → (u.code.run h).Gives e (r >>= take))
    (ht : ∀ r, (t₁.code.run h).Gives e r → (t.code.run h).Gives e (r >>= take'))
    (htake : ∀ a, t₁.kind.Exact e.world a → a.OfRecords R → ∀ v, take a = .ok v →
      take' a = .ok v ∧ t.kind.Exact e.world v ∧ v.OfRecords R) :
    Refines h e R t u where
  kind := hkind
  records := hrecords
  run := by
    obtain ⟨r, r', hr, hr', hrun⟩ := h₁.run
    refine ⟨_, _, hu r hr, ht r' hr', fun v hv => ?_⟩
    obtain ⟨a, ha, hv⟩ := exists_of_bind_ok hv
    obtain ⟨ha', hexact, hofRecords⟩ := hrun a ha
    rw [ha']
    exact htake a hexact hofRecords v hv

theorem of_operands {t₁ u₁ t₂ u₂ : Typed} {join : Value → Except Failure Value → Except Failure Value}
    (h₁ : Refines h e R t₁ u₁) (h₂ : Refines h e R t₂ u₂) (hkind : u.kind.Coarser t.kind)
    (hrecords : t.kind.OfRecords R)
    (hu : ∀ r₁ r₂, (u₁.code.run h).Gives e r₁ → (u₂.code.run h).Gives e r₂ →
      (u.code.run h).Gives e (r₁ >>= fun a => join a r₂))
    (ht : ∀ r₁ r₂, (t₁.code.run h).Gives e r₁ → (t₂.code.run h).Gives e r₂ →
      (t.code.run h).Gives e (r₁ >>= fun a => join a r₂))
    (hjoin : ∀ a r r', t₁.kind.Exact e.world a → a.OfRecords R →
      (∀ b, r = .ok b → r' = .ok b ∧ t₂.kind.Exact e.world b ∧ b.OfRecords R) →
      ∀ v, join a r = .ok v → join a r' = .ok v ∧ t.kind.Exact e.world v ∧ v.OfRecords R) :
    Refines h e R t u := by
  obtain ⟨r, r', hr, hr', hrun⟩ := h₂.run
  exact of_operand h₁ hkind hrecords (fun r₁ hr₁ => hu r₁ r hr₁ hr) (fun r₁ hr₁ => ht r₁ r' hr₁ hr')
    fun a hexact hofRecords => hjoin a r r' hexact hofRecords hrun

theorem member (hw : e.world.Records R) (ht : Refines h e R t u) (cs : Bool) (name : String) :
    Refines h e R (t.member h e.world cs name) (u.member h e.world cs name) := by
  have hsettled : t.kind.Settled h e R cs name := Kind.settled hw ht.records
  obtain ⟨ct, kt⟩ := t
  obtain ⟨cu, ku⟩ := u
  obtain ⟨hempty, hvalue⟩ | ⟨kind, take, hkind, hcode, htake⟩ := hsettled
  · -- The member is the empty text for the known kind, whatever becomes of the receiver.
    obtain (rfl : ku = .any) | (rfl : ku = kt) := ht.kind
    · rw [hempty]
      obtain ⟨r, r', hr, -, hrun⟩ := ht.run
      refine ⟨.inl rfl, trivial, _, _, Code.gives_lateMember hr, .pure _, fun v hv => ?_⟩
      obtain ⟨a, ha, hv⟩ := exists_of_bind_ok hv
      rw [hvalue a (hrun a ha).2.1] at hv
      cases hv
      exact ⟨rfl, .inr rfl, .text ""⟩
    · rw [hempty, hempty]
      exact .const hw (.text "")
  · obtain ⟨hkt, hct⟩ := hcode ct
    obtain (rfl : ku = .any) | (rfl : ku = kt) := ht.kind
    · refine of_operand ht (.inl rfl) (hkt ▸ hkind) (fun r hr => Code.gives_lateMember hr) hct
        fun a hexact hofRecords v hv => ?_
      obtain ⟨htaken, hexact'⟩ := htake a hexact hofRecords
      rw [htaken] at hexact' ⊢
      exact ⟨hv, hkt ▸ hexact' v hv, Host.ofRecords_memberOrEmpty hw hofRecords hv⟩
    · obtain ⟨hku, hcu⟩ := hcode cu
      refine of_operand ht (.inr (hku.trans hkt.symm)) (hkt ▸ hkind) hcu hct fun a hexact hofRecords v hv => ?_
      obtain ⟨htaken, hexact'⟩ := htake a hexact hofRecords
      refine ⟨hv, hkt ▸ hexact' v hv, ?_⟩
      rw [htaken] at hv
      exact Host.ofRecords_memberOrEmpty hw hofRecords hv

theorem unary {t₁ u₁ : Typed} (h₁ : Refines h e R t₁ u₁) {op : UnaryOp} {span : Span}
    (ht : Setting.unary op t₁ span = .ok t) (hu : Setting.unary op u₁ span = .ok u) : Refines h e R t u := by
  obtain ⟨kt, hkt, rfl⟩ := Setting.of_unary_ok ht
  obtain ⟨ku, hku, rfl⟩ := Setting.of_unary_ok hu
  have hcode (c : Code) (r : Except Failure Value) (hr : (c.run h).Gives e r) :
      ((Code.unary op c).run h).Gives e (r >>= op.apply e.world) := by
    rw [Code.run]
    exact hr.bind fun v => .look fun w => op.apply w v
  exact of_operand h₁ (UnaryOp.coarser_kind h₁.kind hkt hku) (UnaryOp.ofRecords_kind h₁.records hkt) (hcode _) (hcode _)
    fun a hexact hofRecords v hv => ⟨hv, UnaryOp.exact_apply hexact hkt hv, UnaryOp.ofRecords_apply hofRecords hv⟩

theorem index (hw : e.world.Records R) {s s' : Setting} {t₁ u₁ t₂ u₂ : Typed} (h₁ : Refines h e R t₁ u₁)
    (h₂ : Refines h e R t₂ u₂) {span : Span} (ht : s.index t₁ t₂ span = .ok t)
    (hu : s'.index u₁ u₂ span = .ok u) : Refines h e R t u := by
  obtain ⟨hct, hkt⟩ := Setting.of_index_ok h₁.records ht
  obtain ⟨hcu, hku⟩ := Setting.of_index_ok (h₁.kind.ofRecords h₁.records) hu
  have hcode (c₁ c₂ : Code) (r₁ r₂ : Except Failure Value) (hr₁ : (c₁.run h).Gives e r₁)
      (hr₂ : (c₂.run h).Gives e r₂) :
      ((Code.index c₁ c₂).run h).Gives e (r₁ >>= fun a => r₂ >>= Host.index e.world a) := by
    rw [Code.run]
    exact hr₁.bind fun a => hr₂.bind fun b => .look fun w => Host.index w a b
  refine of_operands h₁ h₂ ?_ ?_ (hcu ▸ hcode _ _) (hct ▸ hcode _ _) fun a r r' hexact hofRecords hr v hv => ?_
  · obtain ⟨-, hku⟩ | ⟨htext, hku⟩ := hku
    · exact .inl hku
    · obtain hany | heq := h₁.kind
      · rw [hany] at htext; cases htext
      · rw [heq] at htext
        obtain ⟨hne, -⟩ | ⟨-, hkt⟩ := hkt
        · exact (hne htext).elim
        · exact .inr (hku.trans hkt.symm)
  · obtain ⟨-, hkt⟩ | ⟨-, hkt⟩ := hkt <;> rw [hkt] <;> trivial
  · obtain ⟨b, hb, hv⟩ := exists_of_bind_ok hv
    rw [(hr b hb).1]
    refine ⟨hv, ?_, Host.ofRecords_index hw hofRecords hv⟩
    obtain ⟨-, hkt⟩ | ⟨htext, hkt⟩ := hkt
    · exact .inl hkt
    · rw [htext] at hexact
      obtain ⟨s, rfl⟩ := Value.eq_text_of_kind (hexact.eq (by rintro ⟨⟩)).symm
      obtain ⟨n, -, hv⟩ := exists_of_bind_ok hv
      cases hv
      exact .inr hkt

theorem binary {t₁ u₁ t₂ u₂ : Typed} (h₁ : Refines h e R t₁ u₁) (h₂ : Refines h e R t₂ u₂) {op : BinaryOp}
    (hop : op ≠ .coalesce) {span : Span} (ht : Setting.binary op t₁ t₂ span = .ok t)
    (hu : Setting.binary op u₁ u₂ span = .ok u) : Refines h e R t u := by
  obtain ⟨kt, hkt, rfl⟩ := Setting.of_binary_ok ht
  obtain ⟨ku, hku, rfl⟩ := Setting.of_binary_ok hu
  have hkind := BinaryOp.coarser_kind hop h₁.kind h₂.kind hkt hku
  have hrecords := BinaryOp.ofRecords_kind hop h₁.records hkt
  have hcode (c₁ c₂ : Code) (k : Kind) (r₁ r₂ : Except Failure Value) (hr₁ : (c₁.run h).Gives e r₁)
      (hr₂ : (c₂.run h).Gives e r₂) :
      ((Setting.binaryCode op c₁ c₂ k).run h).Gives e (r₁ >>= fun a => op.join e.world a r₂) := by
    cases op with
    | coalesce => exact (hop rfl).elim
    | and | or =>
      rw [Setting.binaryCode, Code.run]
      refine hr₁.bind fun a => ?_
      unfold BinaryOp.join
      dsimp only
      split
      all_goals first
        | exact .pure _
        | exact hr₂.map fun b => rfl
    | _ =>
      change ((Code.binary _ c₁ c₂).run h).Gives e _
      rw [Code.run]
      exact hr₁.bind fun a => hr₂.bind fun b => .look fun w => BinaryOp.apply _ w a b
  refine of_operands h₁ h₂ hkind hrecords (hcode _ _ _) (hcode _ _ _) fun a r r' hexact hofRecords hr v hv => ?_
  refine ⟨BinaryOp.join_mono (fun b hb => (hr b hb).1) hv, ?_⟩
  obtain ⟨hlogical, c, rfl⟩ | ⟨b, hb, hv⟩ := BinaryOp.of_join_ok hv
  · obtain rfl | rfl := hlogical <;> cases hkt <;> exact ⟨.inr rfl, .bool c⟩
  · exact ⟨BinaryOp.exact_apply hop hexact (hr b hb).2.1 hkt hv, BinaryOp.ofRecords_apply hofRecords (hr b hb).2.2 hv⟩

theorem members (hw : e.world.Records R) (ht : Refines h e R t u) (ms : List Expr.Segment) :
    Refines h e R (ms.foldl (fun t m => t.member h e.world cs m.name) t)
      (ms.foldl (fun u m => u.member h e.world cs m.name) u) := by
  induction ms generalizing t u with
  | nil => exact ht
  | cons m ms ih => exact ih (ht.member hw cs m.name)

theorem context (hw : e.world.Records R) {ref : Nat} (href : R ref) (he : e.contexts = [.object ref]) :
    Refines h e R ⟨.context 0, .object (.record ref)⟩ ⟨.context 0, .any⟩ where
  kind := .inl rfl
  records := href
  run := by
    refine ⟨_, _, Code.gives_context he, Code.gives_context he, ?_⟩
    rintro _ ⟨⟩
    obtain ⟨entries, hobject, -⟩ := hw ref href
    exact ⟨rfl, .inr (by rw [Value.kind, hobject]; rfl), .object href⟩

theorem ofName (hw : e.world.Records R) {ref : Nat} (href : R ref) (he : e.contexts = [.object ref]) (strict : Bool) :
    Refines h e R (Typed.ofName h e.world ref cs name) ⟨.lateMember (.context 0) name cs strict, .any⟩ := by
  obtain ⟨entries, hobject, -⟩ := hw ref href
  obtain ⟨hexact, hrecords⟩ := @Host.exact_variableKind h R cs name e.world hw ref href entries hobject
  have hmember := @Host.member_record e.world h cs name ref entries hobject
  have hvalue : ((entries.lookup cs name).getD .null).OfRecords R := .getD fun v hv => hw.lookup href hobject hv
  have hlate := Code.gives_lateMember_of_member he hmember strict
  unfold Typed.ofName
  cases hk : h.variableKind? e.world cs name (.object (.record ref)) with
  | some k =>
    rw [hk] at hexact hrecords
    refine ⟨.inl rfl, hrecords, _, _, hlate, Code.gives_variable he hmember hexact, ?_⟩
    rintro _ ⟨⟩
    exact ⟨rfl, hexact, hvalue⟩
  | none =>
    refine ⟨.inl rfl, trivial, _, _, hlate, Code.gives_property (Code.gives_context he), ?_⟩
    rintro _ ⟨⟩
    refine ⟨?_, .inl rfl, hvalue⟩
    change (h.member cs (.object ref) name e.world).map _ = _
    rw [hmember]
    rfl

end Typed.Refines

namespace Setting

/-- Compilation for a context of a kind and nothing else: no types, no namespaces, no resolvers, and names need not
resolve. -/
def plain (h : Host) (w : World) (k : Kind) (cs : Bool) : Setting := ⟨h, w, .init h w k, .empty, [], [], cs, false⟩

variable {w : World} {k : Kind} {ref : Nat}

theorem typeFront?_plain (ns : String) (path : List Expr.Segment) (n : Nat) :
    (plain h w k cs).typeFront? ns path n = none := by
  induction n with
  | zero => rfl
  | succ n ih =>
    rw [typeFront?, plain, Table.lookup_empty]
    exact ih

theorem member_plain (t : Typed) (name : String) (span : Span) (qualifier : Option String) :
    (plain h w k cs).member t name span qualifier = .ok (t.member h w cs name) := by
  have hresolve : (plain h w k cs).resolve ((plain h w k cs).request t name qualifier span) =
      .ok (memberOf h w ⟨t, name, none, default, cs, false⟩) := rfl
  unfold member Typed.member
  rw [hresolve]
  cases memberOf h w ⟨t, name, none, default, cs, false⟩ <;> rfl

theorem members_plain (t : Typed) (before ms : List Expr.Segment) :
    (plain h w k cs).members t before ms = .ok (ms.foldl (fun t m => t.member h w cs m.name) t) := by
  induction ms generalizing t before with
  | nil => rfl
  | cons m ms ih =>
    rw [members, member_plain]
    exact ih _ _

theorem lookup_plain (name : String) : (plain h w (.object (.record ref)) cs).lookup name =
    (h.variableKind? w cs name (.object (.record ref))).map fun k => (0, .variable 0 name k) := by
  unfold plain lookup Scope.lookup Scope.init Scope.frames Scope.lookupIn Scope.meaning? Frame.find? Frame.open_
  dsimp only [List.nil_append]
  rw [Table.lookup_empty]
  cases h.variableKind? w cs name (.object (.record ref)) <;> rfl

theorem tryName_plain (name : String) (span : Span) (strict : Bool) :
    ({ plain h w (.object (.record ref)) cs with strict } : Setting).tryName name span =
      .ok (if (h.variableKind? w cs name (.object (.record ref))).isNone && strict then none
        else some (.ofName h w ref cs name)) := by
  have hlookup : ({ plain h w (.object (.record ref)) cs with strict } : Setting).lookup name =
      (h.variableKind? w cs name (.object (.record ref))).map fun k => (0, .variable 0 name k) := lookup_plain name
  unfold tryName Typed.ofName
  rw [hlookup]
  cases hk : h.variableKind? w cs name (.object (.record ref)) with
  | some k => rfl
  | none =>
    change Except.ok (memberOf h w ⟨⟨.context 0, .object (.record ref)⟩, name, none, span, cs, strict⟩) = _
    rw [memberOf_record, hk]
    cases strict <;> rfl

theorem name_plain (name : String) (span : Span) :
    (plain h w (.object (.record ref)) cs).name name span = .ok (.ofName h w ref cs name) := by
  have htry : (plain h w (.object (.record ref)) cs).tryName name span = _ := tryName_plain name span false
  unfold Setting.name
  rw [htry, Bool.and_false]
  rfl

theorem path_plain (first : Expr.Segment) (more : List Expr.Segment) :
    (plain h w (.object (.record ref)) cs).path first (first :: more) =
      .ok (more.foldl (fun t m => t.member h w cs m.name) (.ofName h w ref cs first.name)) := by
  have hhead : (plain h w (.object (.record ref)) cs).head first (first :: more) =
      .ok (if (h.variableKind? w cs first.name (.object (.record ref))).isNone then none
        else some (.value (.ofName h w ref cs first.name), 1)) := by
    unfold head
    rw [lookup_plain, typeFront?_plain, tryName_plain first.name first.span true]
    unfold Typed.ofName
    cases h.variableKind? w cs first.name (.object (.record ref)) with
    | none => rfl
    | some k =>
      change (if k.isAny && false then _ else _) = _
      rw [Bool.and_false]
      rfl
  unfold path
  rw [hhead]
  cases h.variableKind? w cs first.name (.object (.record ref)) with
  | none =>
    change (do
      let t ← (plain h w (.object (.record ref)) cs).name first.name first.span
      (plain h w (.object (.record ref)) cs).members t _ _) = _
    rw [name_plain]
    exact members_plain _ _ _
  | some k => exact members_plain _ _ _

theorem name_plain_late (name : String) (span : Span) :
    (plain h w .any cs).name name span = .ok ⟨.lateMember (.context 0) name cs false, .any⟩ := by
  have hlookup : (plain h w .any cs).lookup name = none := lookup_late rfl (.inl rfl) name
  unfold Setting.name tryName
  rw [hlookup]
  rfl

theorem path_plain_late (first : Expr.Segment) (more : List Expr.Segment) :
    (plain h w .any cs).path first (first :: more) = .ok (more.foldl (fun t m => t.member h w cs m.name)
      ⟨.lateMember (.context 0) first.name cs true, .any⟩) := by
  have hmembers : (plain h w .any cs).members ⟨.lateMember (.context 0) first.name cs true, .any⟩ [] more = .ok _ :=
    members_plain _ _ _
  rw [← hmembers, members_late rfl]
  exact path_late rfl (.inl rfl) rfl first more (typeFront?_plain _ _ _) rfl

end Setting

/-- Expressions of literals, names, contexts, members, positions, and operators that do not choose between their
operands. -/
def Expr.isDirect : Expr → Bool
  | .literal _ _ | .name _ _ | .context _ _ => true
  | .member target _ _ _ => target.isDirect
  | .index target position _ => target.isDirect && position.isDirect
  | .unary _ operand _ => operand.isDirect
  | .binary op left right _ => op != .coalesce && left.isDirect && right.isDirect
  | .call _ _ _ | .choice _ _ _ _ | .guarded _ _ _ => false

theorem Literal.ofRecords_value {l : Literal} {span : Span} {v : Value} (hv : l.value span = .ok v) :
    v.OfRecords R := by
  cases l with
  | null => cases hv; exact .null
  | bool b => cases hv; exact .bool b
  | int n k => cases hv; exact .int _ _
  | float x k => cases hv; exact .float _ _
  | text s => cases hv; exact .text s
  | pattern body flags =>
    rw [value] at hv
    split at hv <;> cases hv
    exact .pattern _

namespace Setting

variable {ref : Nat}

theorem elaborate_refines (hw : e.world.Records R) (href : R ref) (he : e.contexts = [.object ref]) (x : Expr)
    (hx : x.isDirect) {t u : Typed} (ht : (plain h e.world (.object (.record ref)) cs).elaborate x = .ok t)
    (hu : (plain h e.world .any cs).elaborate x = .ok u) : t.Refines h e R u := by
  match x with
  | .literal l span =>
    rw [elaborate] at ht hu
    obtain ⟨v, hv, ht⟩ := exists_of_bind_ok ht
    obtain ⟨v', hv', hu⟩ := exists_of_bind_ok hu
    cases hv.symm.trans hv'
    cases ht
    cases hu
    exact .const hw (Literal.ofRecords_value hv)
  | .name n span =>
    rw [elaborate, name_plain] at ht
    rw [elaborate, name_plain_late] at hu
    cases ht
    cases hu
    exact .ofName hw href he false
  | .context n span =>
    rw [elaborate] at ht hu
    cases n with
    | zero =>
      cases ht
      cases hu
      exact .context hw href he
    | succ n => cases ht
  | .member target n nameSpan span =>
    rw [elaborate] at ht hu
    split at ht
    · next first more hpath =>
      rw [hpath] at hu
      dsimp only at hu
      rw [List.cons_append, path_plain] at ht
      rw [List.cons_append, path_plain_late] at hu
      -- The first name is strict for an unknown context, but a record has an answer to every name.
      cases ht
      cases hu
      exact .members hw (.ofName hw href he true) _
    · next hpath =>
      split at hu
      · next first more hpath' => exact (hpath _ _ hpath').elim
      · obtain ⟨t₁, ht₁, ht⟩ := exists_of_bind_ok ht
        obtain ⟨u₁, hu₁, hu⟩ := exists_of_bind_ok hu
        rw [member_plain] at ht hu
        cases ht
        cases hu
        exact (elaborate_refines hw href he target hx ht₁ hu₁).member hw _ _
  | .index target position span =>
    rw [Expr.isDirect, Bool.and_eq_true] at hx
    rw [elaborate] at ht hu
    obtain ⟨t₁, ht₁, ht⟩ := exists_of_bind_ok ht
    obtain ⟨t₂, ht₂, ht⟩ := exists_of_bind_ok ht
    obtain ⟨u₁, hu₁, hu⟩ := exists_of_bind_ok hu
    obtain ⟨u₂, hu₂, hu⟩ := exists_of_bind_ok hu
    have h₁ := elaborate_refines hw href he target hx.1 ht₁ hu₁
    have h₂ := elaborate_refines hw href he position hx.2 ht₂ hu₂
    exact h₁.index hw h₂ ht hu
  | .unary op operand span =>
    rw [elaborate] at ht hu
    obtain ⟨t₁, ht₁, ht⟩ := exists_of_bind_ok ht
    obtain ⟨u₁, hu₁, hu⟩ := exists_of_bind_ok hu
    exact (elaborate_refines hw href he operand hx ht₁ hu₁).unary ht hu
  | .binary op left right span =>
    rw [Expr.isDirect, Bool.and_eq_true, Bool.and_eq_true, bne_iff_ne] at hx
    rw [elaborate] at ht hu
    obtain ⟨t₁, ht₁, ht⟩ := exists_of_bind_ok ht
    obtain ⟨t₂, ht₂, ht⟩ := exists_of_bind_ok ht
    obtain ⟨u₁, hu₁, hu⟩ := exists_of_bind_ok hu
    obtain ⟨u₂, hu₂, hu⟩ := exists_of_bind_ok hu
    have h₁ := elaborate_refines hw href he left hx.1.2 ht₁ hu₁
    have h₂ := elaborate_refines hw href he right hx.2 ht₂ hu₂
    exact h₁.binary h₂ hx.1.1 ht hu
  | .call _ _ _ | .choice _ _ _ _ | .guarded _ _ _ => cases hx

/-- An expression without calls and conditionals that is compiled for an unknown context and gives a value on a
record gives that value when it is compiled for the record's own kind. -/
theorem record_kind_keeps_late_values (h : Host) (w : World) (cs : Bool) (hw : w.Records R) (href : R ref) (x : Expr)
    (hx : x.isDirect) {t u : Typed} (ht : (plain h w ((Value.object ref).kind w) cs).elaborate x = .ok t)
    (hu : (plain h w .any cs).elaborate x = .ok u) {v : Value} {w' : World}
    (hrun : u.evaluate h (.object ref) w = (.ok v, w')) : t.evaluate h (.object ref) w = (.ok v, w') := by
  have hkind : (Value.object ref).kind w = .object (.record ref) := by
    obtain ⟨entries, hobject, -⟩ := hw ref href
    rw [Value.kind, hobject]
    rfl
  rw [hkind] at ht
  obtain ⟨r, r', hr, hr', hvalue⟩ :=
    (elaborate_refines (e := .init (.object ref) 0 w) hw href rfl x hx ht hu).run
  unfold Typed.evaluate at hrun ⊢
  rw [hr] at hrun
  rw [hr']
  cases r with
  | ok a =>
    cases hrun
    rw [(hvalue v rfl).1]
    rfl
  | error f => cases hrun

/-- A sum over a record that holds another record. -/
theorem record_kind_keeps_late_values_sum :
    let w : World := { World.empty with objects := #[.record ⟨[("a", .object 1)]⟩,
      .record ⟨[("b", .int 2 .i32)]⟩] }
    let x : Expr := .binary .add (.member (.name "a" default) "b" default default) (.literal (.int 3 .i32) default)
      default
    w.Records (· < 2) ∧ x.isDirect ∧ ∃ t u,
      (plain .empty w ((Value.object 0).kind w) false).elaborate x = .ok t ∧
      (plain .empty w .any false).elaborate x = .ok u ∧
      u.evaluate .empty (.object 0) w = (.ok (.int 5 .i32), w) ∧
      t.evaluate .empty (.object 0) w = (.ok (.int 5 .i32), w) := by
  intro w x
  have hw : w.Records (· < 2) := by
    intro ref href
    match ref with
    | 0 =>
      refine ⟨_, rfl, fun e he => ?_⟩
      obtain rfl := List.mem_singleton.1 he
      exact .object (by decide)
    | 1 =>
      refine ⟨_, rfl, fun e he => ?_⟩
      obtain rfl := List.mem_singleton.1 he
      exact .int _ _
  obtain ⟨t, ht⟩ : ∃ t, (plain .empty w ((Value.object 0).kind w) false).elaborate x = .ok t := ⟨_, rfl⟩
  obtain ⟨u, hu, hrun⟩ : ∃ u, (plain .empty w .any false).elaborate x = .ok u ∧
      u.evaluate .empty (.object 0) w = (.ok (.int 5 .i32), w) := ⟨_, rfl, rfl⟩
  exact ⟨hw, rfl, t, u, ht, hu, hrun, record_kind_keeps_late_values .empty w false hw (by decide) x rfl ht hu hrun⟩

end Setting

end Stencil
