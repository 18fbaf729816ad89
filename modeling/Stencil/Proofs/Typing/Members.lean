import Stencil.Proofs.Run.Flow
import Stencil.Proofs.Value.Records
import Stencil.Typing.Elaborate
set_option autoImplicit false

namespace Stencil

def Flow.Gives {α : Type} (x : Flow α) (e : Env) (r : Except Failure α) : Prop := x e = (r.mapError .fail, e)

namespace Flow.Gives

variable {α β : Type} {e : Env} {x : Flow α} {r : Except Failure α}

theorem pure (a : α) : (pure a : Flow α).Gives e (.ok a) := rfl

theorem look (f : World → Except Failure α) : (Flow.look f).Gives e (f e.world) := by
  unfold Gives Flow.look
  cases f e.world <;> rfl

theorem bind {f : α → Flow β} {g : α → Except Failure β} (hx : x.Gives e r) (hf : ∀ a, (f a).Gives e (g a)) :
    (x >>= f).Gives e (r >>= g) := by
  unfold Gives
  rw [bind_apply, hx]
  cases r with
  | ok a => exact hf a
  | error f => rfl

theorem map {f : α → Flow β} {g : α → β} (hx : x.Gives e r) (hf : ∀ a, f a = Pure.pure (g a)) :
    (x >>= f).Gives e (r.map g) := by
  unfold Gives
  rw [bind_apply, hx, funext hf]
  cases r <;> rfl

end Flow.Gives

namespace Typed

/-- The member of a receiver as it is compiled where names need not resolve. -/
def member (h : Host) (w : World) (cs : Bool) (t : Typed) (name : String) : Typed :=
  (memberOf h w ⟨t, name, none, default, cs, false⟩).getD .empty

end Typed

def Host.memberOrEmpty (h : Host) (cs : Bool) (v : Value) (name : String) (w : World) : Except Failure Value :=
  (h.member cs v name w).map (·.getD (.text ""))

variable {h : Host} {R : Nat → Prop} {e : Env} {cs : Bool} {name : String}

theorem Host.ofRecords_memberOrEmpty (hw : e.world.Records R) {v u : Value} (hv : v.OfRecords R)
    (hu : h.memberOrEmpty cs v name e.world = .ok u) : u.OfRecords R := by
  obtain ⟨found, hfound, rfl⟩ := exists_of_map_ok hu
  cases found with
  | none => exact .text ""
  | some u => exact ofRecords_member hw hv hfound

namespace Code

variable {c : Code} {r : Except Failure Value}

theorem gives_lateMember (hc : (c.run h).Gives e r) :
    ((Code.lateMember c name cs false).run h).Gives e (r >>= fun v => h.memberOrEmpty cs v name e.world) := by
  rw [Code.run]
  exact hc.bind fun v => (Flow.Gives.look (h.member cs v name)).map fun found => by cases found <;> rfl

theorem gives_field (f : Field) (hc : (c.run h).Gives e r) :
    ((Code.field c f).run h).Gives e (r >>= fun v => if v.isNull then .ok .null else f.read e.world v) := by
  rw [Code.run]
  refine hc.bind fun v => ?_
  split
  · exact .pure _
  · exact .look _

theorem gives_property (hc : (c.run h).Gives e r) :
    ((Code.property c name cs).run h).Gives e
      (r >>= fun v => (h.member cs v name e.world).map (·.getD .null)) := by
  rw [Code.run]
  exact hc.bind fun v => (Flow.Gives.look (h.member cs v name)).map fun _ => rfl

end Code

namespace Value

variable {w : World} {v : Value}

theorem eq_object_of_kind {ref : Nat} (h : v.kind w = .object (.record ref)) : v = object ref := by
  cases v with
  | object ref' =>
    rw [kind] at h
    cases htype : (w.object ref').type with
    | record =>
      rw [htype] at h
      cases h
      rfl
    | declared id name =>
      rw [htype] at h
      cases h
  | _ => simp_all [kind_eq]

end Value

theorem memberOf_record (w : World) (ref : Nat) (c : Code) (qualifier : Option String) (span : Span) (strict : Bool) :
    memberOf h w ⟨⟨c, .object (.record ref)⟩, name, qualifier, span, cs, strict⟩ =
      ((h.variableKind? w cs name (.object (.record ref))).or (if strict then none else some .any)).map fun k =>
        ⟨.property c name cs, k⟩ := by
  have hfield : (h.objectType w (.record ref)).field? cs name = none := Table.lookup_empty _ _
  have hstatic : (h.objectType w (.record ref)).static? cs name = none := Table.lookup_empty _ _
  unfold memberOf Host.describe Host.variableKind?
  dsimp only [Option.bind_eq_bind, Option.bind_some]
  rw [hfield]
  dsimp only
  rw [hstatic]
  cases (h.objectType w (.record ref)).variableKind? cs name with
  | some k => rfl
  | none => cases strict <;> rfl

namespace Typed

theorem member_fields {w : World} {k : Kind} {t : HostType} (hany : k ≠ .any) (hnull : k ≠ .null)
    (ht : h.describe w k = some t) (hstatics : t.statics = .empty) (hdynamic : t.isDynamic = false) (c : Code) :
    member h w cs ⟨c, k⟩ name = match t.field? cs name with
      | some f => ⟨.field c f, f.kind⟩
      | none => .empty := by
  unfold member memberOf
  dsimp only
  split
  · exact (hany rfl).elim
  · exact (hnull rfl).elim
  · rw [ht]
    cases hf : t.field? cs name with
    | some f => simp [hf]
    | none => simp [hf, HostType.static?, hstatics, Table.lookup_empty, hdynamic]

theorem member_record (w : World) (ref : Nat) (c : Code) :
    member h w cs ⟨c, .object (.record ref)⟩ name =
      ⟨.property c name cs, (h.variableKind? w cs name (.object (.record ref))).getD .any⟩ := by
  unfold member
  rw [memberOf_record]
  cases h.variableKind? w cs name (.object (.record ref)) <;> rfl

end Typed

namespace Host

theorem memberOrEmpty_unknown {w : World} {v : Value} (hnull : v.isNull = false)
    (hkind : h.describe w (v.kind w) = none) : h.memberOrEmpty cs v name w = .ok (.text "") := by
  unfold memberOrEmpty member
  rw [hnull, hkind]
  rfl

theorem exact_variableKind {w : World} (hw : w.Records R) {ref : Nat} (href : R ref) {entries : Table Value}
    (hobject : w.object ref = .record entries) :
    ((h.variableKind? w cs name (.object (.record ref))).getD .any).Exact w ((entries.lookup cs name).getD .null) ∧
      ((h.variableKind? w cs name (.object (.record ref))).getD .any).OfRecords R := by
  have htype : h.objectType w (.record ref) = .ofRecord w entries := by
    dsimp only [objectType]
    rw [hobject]
    rfl
  unfold variableKind? HostType.variableKind?
  dsimp only
  rw [htype]
  unfold HostType.ofRecord
  dsimp only
  rw [Table.lookup_map]
  cases hv : entries.lookup cs name with
  | none => exact ⟨.inl rfl, trivial⟩
  | some v =>
    dsimp only [Option.map_some, Option.getD_some]
    split
    · exact ⟨.inl rfl, trivial⟩
    · exact ⟨.inr rfl, hw.kind (hw.lookup href hobject hv)⟩

end Host

/-- How the member of a receiver of a kind is compiled: to the empty text when the kind has no such member, or else
to something taken from the value of the receiver. Either way that is the member of a value of the kind. -/
def Kind.Settled (h : Host) (e : Env) (R : Nat → Prop) (cs : Bool) (name : String) (k : Kind) : Prop :=
  ((∀ c, Typed.member h e.world cs ⟨c, k⟩ name = .empty) ∧
    ∀ v, k.Exact e.world v → h.memberOrEmpty cs v name e.world = .ok (.text "")) ∨
  ∃ kind take, Kind.OfRecords R kind ∧
    (∀ c, (Typed.member h e.world cs ⟨c, k⟩ name).kind = kind ∧ ∀ r, (c.run h).Gives e r →
      ((Typed.member h e.world cs ⟨c, k⟩ name).code.run h).Gives e (r >>= take)) ∧
    ∀ v, k.Exact e.world v → v.OfRecords R → take v = h.memberOrEmpty cs v name e.world ∧
      ∀ u, take v = .ok u → kind.Exact e.world u

namespace Kind

theorem settled_fields {k : Kind} {t : HostType} (hany : k ≠ .any) (hnull : k ≠ .null)
    (hobject : ∀ o, k ≠ .object o) (ht : h.describe e.world k = some t) (hstatics : t.statics = .empty)
    (hdynamic : t.isDynamic = false) (hkind : ∀ f, t.field? cs name = some f → f.kind.OfRecords R)
    (hread : ∀ f v u, t.field? cs name = some f → v.OfRecords R → f.read e.world v = .ok u →
      f.kind.Exact e.world u) :
    k.Settled h e R cs name := by
  have hvalue (v : Value) (hv : k.Exact e.world v) : v.isNull = false ∧
      h.member cs v name e.world = match t.field? cs name with
        | some f => (f.read e.world v).map some
        | none => .ok none := by
    obtain rfl := hv.eq hany
    have hnullv : v.isNull = false := by
      rw [← Value.isNull_kind e.world]
      cases hkv : v.kind e.world with
      | null => exact (hnull hkv).elim
      | _ => rfl
    refine ⟨hnullv, Host.member_fields hnullv ?_ ht hstatics⟩
    rintro ref rfl
    exact hobject _ (Value.kind_eq _ _)
  cases hf : t.field? cs name with
  | none =>
    have hmember (c : Code) : Typed.member h e.world cs ⟨c, k⟩ name = .empty := by
      rw [Typed.member_fields hany hnull ht hstatics hdynamic, hf]
    refine .inl ⟨hmember, fun v hv => ?_⟩
    unfold Host.memberOrEmpty
    rw [(hvalue v hv).2, hf]
    rfl
  | some f =>
    have hmember (c : Code) : Typed.member h e.world cs ⟨c, k⟩ name = ⟨.field c f, f.kind⟩ := by
      rw [Typed.member_fields hany hnull ht hstatics hdynamic, hf]
    refine .inr ⟨f.kind, fun v => if v.isNull then .ok .null else f.read e.world v, hkind f hf, fun c => ?_,
      fun v hv hrecords => ?_⟩
    · rw [hmember]
      exact ⟨rfl, fun r hr => Code.gives_field f hr⟩
    · obtain ⟨hnullv, hfound⟩ := hvalue v hv
      unfold Host.memberOrEmpty
      dsimp only
      rw [hnullv, hfound, hf]
      refine ⟨?_, fun u hu => hread f v u hf hrecords hu⟩
      dsimp only [Bool.false_eq_true, if_false]
      cases f.read e.world v <;> rfl

theorem settled (hw : e.world.Records R) {k : Kind} (hk : k.OfRecords R) : k.Settled h e R cs name := by
  cases k with
  | any | null =>
    exact .inr ⟨.any, fun v => h.memberOrEmpty cs v name e.world, trivial,
      fun c => ⟨rfl, fun r hr => Code.gives_lateMember hr⟩, fun v _ _ => ⟨rfl, fun u _ => .inl rfl⟩⟩
  | text =>
    exact settled_fields nofun nofun nofun rfl rfl rfl (fun f hf => Builtin.ofRecords_kind_textField hf)
      fun f v u hf _ hu => Builtin.exact_textField hf hu
  | list =>
    exact settled_fields nofun nofun nofun rfl rfl rfl (fun f hf => Builtin.ofRecords_kind_listField hf)
      fun f v u hf _ hu => Builtin.exact_listField hf hu
  | object o =>
    cases o with
    | declared => exact hk.elim
    | record ref =>
      obtain ⟨entries, hobject, -⟩ := hw ref hk
      obtain ⟨hexact, hrecords⟩ := @Host.exact_variableKind h R cs name e.world hw ref hk entries hobject
      refine .inr ⟨_, fun v => (h.member cs v name e.world).map (·.getD .null), hrecords, fun c => ?_, fun v hv _ => ?_⟩
      · rw [Typed.member_record]
        exact ⟨rfl, fun r hr => Code.gives_property hr⟩
      · obtain rfl := Value.eq_object_of_kind (hv.eq nofun).symm
        unfold Host.memberOrEmpty
        dsimp only
        rw [Host.member_record hobject]
        refine ⟨rfl, ?_⟩
        rintro u ⟨⟩
        exact hexact
  | enum | function => exact hk.elim
  | bool | int | float | pattern =>
    refine .inl ⟨fun c => rfl, fun v hv => ?_⟩
    have hkind := (hv.eq nofun).symm
    refine Host.memberOrEmpty_unknown ?_ ?_
    · rw [← Value.isNull_kind e.world, hkind]
      rfl
    · rw [hkind]
      rfl

end Kind

end Stencil
