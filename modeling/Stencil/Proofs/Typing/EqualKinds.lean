import Mathlib.Data.Fintype.EquivFin
import Stencil.Proofs.Typing.Members
/-!
Kinds that count as equal, as receivers of members. Object kinds are equal by name alone, while members come from the
types behind them, and all records share a name. So equal kinds resolve a name alike only as far as their types show it
alike. Where they do, a member of a conditional is of its kind.
-/
set_option autoImplicit false

namespace Stencil

variable {h : Host} {w : World} {k k' k'' : Kind} {t t' : HostType} {cs strict : Bool} {name : String}

/-! ### Kinds of members -/

/-- The kind that a type tells of a member: a field, a static member, or a variable that it knows. -/
def HostType.known? (t : HostType) (w : World) (cs : Bool) (name : String) : Option Kind :=
  match t.field? cs name with
  | some f => some f.kind
  | none =>
    match t.static? cs name with
    | some m => some (m.value.kind w)
    | none => if t.isDynamic then t.variableKind? cs name else none

def Host.memberKind? (h : Host) (w : World) (cs strict : Bool) (name : String) : Kind → Option Kind
  | .any | .null => some .any
  | k => (h.describe w k).bind fun t =>
    (t.known? w cs name).or (if t.isDynamic && !strict then some .any else none)

/-- Receivers of the two kinds have members of equal kinds under every name, or both have none. -/
def Kind.Interchangeable (h : Host) (w : World) (k k' : Kind) : Prop :=
  ∀ r r' : NameRequest, r.receiver.kind = k → r'.receiver.kind = k' → r'.name = r.name →
    r'.caseSensitive = r.caseSensitive → r'.strict = r.strict →
    (memberOf h w r).map (·.kind) == (memberOf h w r').map (·.kind)

/-- Two types tell equal kinds of the same members, and both or neither have members that they do not know. -/
structure HostType.ShowsLike (w : World) (t t' : HostType) : Prop where
  known : ∀ cs name, t.known? w cs name == t'.known? w cs name
  dynamic : t.isDynamic = t'.isDynamic

theorem Host.memberKind?_of_settled (hany : k ≠ .any) (hnull : k ≠ .null) (w : World) (cs strict : Bool)
    (name : String) : h.memberKind? w cs strict name k = (h.describe w k).bind fun t =>
      (t.known? w cs name).or (if t.isDynamic && !strict then some .any else none) := by
  cases k with
  | any => exact absurd rfl hany
  | null => exact absurd rfl hnull
  | _ => rfl

theorem kind_memberOf (h : Host) (w : World) (r : NameRequest) :
    (memberOf h w r).map (·.kind) = h.memberKind? w r.caseSensitive r.strict r.name r.receiver.kind := by
  unfold memberOf
  split
  · next hk => rw [hk]; rfl
  · next hk => rw [hk]; rfl
  · next hany hnull =>
    rw [Host.memberKind?_of_settled hany hnull]
    cases h.describe w r.receiver.kind with
    | none => rfl
    | some t =>
      dsimp only [Option.bind_eq_bind, Option.bind_some]
      unfold HostType.known?
      cases t.field? r.caseSensitive r.name with
      | some f => rfl
      | none =>
        cases t.static? r.caseSensitive r.name with
        | some m => rfl
        | none =>
          cases t.isDynamic with
          | false => rfl
          | true => cases t.variableKind? r.caseSensitive r.name <;> cases r.strict <;> rfl

namespace Kind

theorem optionSame_refl (x : Option Kind) : x == x := by
  cases x with
  | none => rfl
  | some k => exact k.same_refl

theorem optionSame_comm (x y : Option Kind) : (x == y) = (y == x) := by
  cases x with
  | none => cases y <;> rfl
  | some k =>
    cases y with
    | none => rfl
    | some k' => exact k.same_comm k'

theorem optionSame_trans {x y z : Option Kind} (hxy : x == y) (hyz : y == z) : x == z := by
  cases x with
  | none =>
    cases y with
    | none => exact hyz
    | some k' => cases hxy
  | some k =>
    cases y with
    | none => cases hxy
    | some k' =>
      cases z with
      | none => cases hyz
      | some k'' => exact same_trans (a := k) hxy hyz

theorem optionSame_or {x y : Option Kind} (hxy : x == y) (z : Option Kind) : x.or z == y.or z := by
  cases x with
  | none =>
    cases y with
    | none => exact optionSame_refl z
    | some k' => cases hxy
  | some k =>
    cases y with
    | none => cases hxy
    | some k' => exact hxy

theorem interchangeable_iff_memberKind? : k.Interchangeable h w k' ↔ ∀ cs strict name,
    h.memberKind? w cs strict name k == h.memberKind? w cs strict name k' := by
  constructor
  · intro hk cs strict name
    let request (k : Kind) : NameRequest := ⟨⟨.const .null, k⟩, name, none, default, cs, strict⟩
    have hsame := hk (request k) (request k') rfl rfl rfl rfl rfl
    rwa [kind_memberOf, kind_memberOf] at hsame
  · rintro hk r r' rfl rfl hname hcase hstrict
    rw [kind_memberOf, kind_memberOf, hname, hcase, hstrict]
    exact hk r.caseSensitive r.strict r.name

namespace Interchangeable

theorem refl (h : Host) (w : World) (k : Kind) : k.Interchangeable h w k :=
  interchangeable_iff_memberKind?.2 fun _ _ _ => optionSame_refl _

theorem symm (hk : k.Interchangeable h w k') : k'.Interchangeable h w k := by
  rw [interchangeable_iff_memberKind?] at hk ⊢
  exact fun cs strict name => (optionSame_comm _ _).trans (hk cs strict name)

theorem trans (hk : k.Interchangeable h w k') (hk' : k'.Interchangeable h w k'') : k.Interchangeable h w k'' := by
  rw [interchangeable_iff_memberKind?] at hk hk' ⊢
  exact fun cs strict name => optionSame_trans (hk cs strict name) (hk' cs strict name)

end Interchangeable

end Kind

/-! ### Types behind equal kinds -/

theorem Host.memberKind?_of_same (hk : k == k') (hobject : ∀ o, k ≠ .object o) (cs strict : Bool) (name : String) :
    h.memberKind? w cs strict name k = h.memberKind? w cs strict name k' := by
  cases k with
  | object o => exact absurd rfl (hobject o)
  | _ => cases k' <;> first | rfl | cases hk

theorem HostType.exists_unknown (w : World) (t t' : HostType) :
    ∃ name, t.known? w true name = none ∧ t'.known? w true name = none := by
  obtain ⟨name, hname⟩ := Infinite.exists_notMem_finset (t.fields.names ++ t.statics.names ++ t.vars.names ++
    (t'.fields.names ++ t'.statics.names ++ t'.vars.names)).toFinset
  have hlookup {α : Type} (table : Table α) (h : name ∉ table.names) : table.lookup true name = none := by
    obtain ⟨e, he, hsame, -⟩ | ⟨-, hnone⟩ := table.lookup_cases true name
    · exact absurd (List.mem_map.2 ⟨e, he, eq_of_beq hsame⟩) h
    · exact hnone
  simp only [List.toFinset_append, Finset.mem_union, List.mem_toFinset, not_or] at hname
  refine ⟨name, ?_, ?_⟩
  · simp [known?, field?, static?, variableKind?, hlookup _ hname.1.1.1, hlookup _ hname.1.1.2, hlookup _ hname.1.2]
  · simp [known?, field?, static?, variableKind?, hlookup _ hname.2.1.1, hlookup _ hname.2.1.2, hlookup _ hname.2.2]

theorem Kind.interchangeable_object_iff {o o' : ObjectType} : (Kind.object o).Interchangeable h w (.object o') ↔
    (h.objectType w o).ShowsLike w (h.objectType w o') := by
  have hkind (o : ObjectType) (cs strict : Bool) (name : String) : h.memberKind? w cs strict name (.object o) =
      ((h.objectType w o).known? w cs name).or (if (h.objectType w o).isDynamic && !strict then some .any else none) :=
    rfl
  rw [interchangeable_iff_memberKind?]
  simp only [hkind]
  constructor
  · intro hsame
    refine ⟨fun cs name => ?_, ?_⟩
    · simpa using hsame cs true name
    · -- under a name that neither type knows, only the openness of the types shows
      obtain ⟨name, hnone, hnone'⟩ := HostType.exists_unknown w (h.objectType w o) (h.objectType w o')
      have hlenient := hsame true false name
      rw [hnone, hnone'] at hlenient
      revert hlenient
      cases (h.objectType w o).isDynamic <;> cases (h.objectType w o').isDynamic <;> simp
  · intro hshows cs strict name
    rw [hshows.dynamic]
    exact optionSame_or (hshows.known cs name) _

theorem Kind.interchangeable_iff (hk : k == k') : k.Interchangeable h w k' ↔ ∀ o o', k = .object o → k' = .object o' →
    (h.objectType w o).ShowsLike w (h.objectType w o') := by
  constructor
  · rintro hinter o o' rfl rfl
    exact interchangeable_object_iff.1 hinter
  · intro hshows
    by_cases hobject : ∃ o, k = .object o
    · obtain ⟨o, rfl⟩ := hobject
      cases k' with
      | object o' => exact interchangeable_object_iff.2 (hshows o o' rfl rfl)
      | _ => cases hk
    · refine interchangeable_iff_memberKind?.2 fun cs strict name => ?_
      rw [Host.memberKind?_of_same hk fun o ho => hobject ⟨o, ho⟩]
      exact optionSame_refl _

/-- A member of a receiver is late, a field, a constant, or a variable that the type behind the kind knows. -/
theorem memberOf_cases {r : NameRequest} {m : Typed} (hm : memberOf h w r = some m) :
    m.kind = .any ∨ (∃ v, m = .const w v) ∨
      ∃ t, h.describe w r.receiver.kind = some t ∧ r.receiver.kind ≠ .any ∧ r.receiver.kind ≠ .null ∧
        ((∃ f, t.field? r.caseSensitive r.name = some f ∧ m = ⟨.field r.receiver.code f, f.kind⟩) ∨
          (t.known? w r.caseSensitive r.name = some m.kind ∧
            m.code = .property r.receiver.code r.name r.caseSensitive)) := by
  unfold memberOf at hm
  split at hm
  · cases hm; exact .inl rfl
  · cases hm; exact .inl rfl
  · next hany hnull =>
    obtain ⟨t, ht, hm⟩ := Option.bind_eq_some_iff.1 hm
    cases hf : t.field? r.caseSensitive r.name with
    | some f =>
      rw [hf] at hm
      cases hm
      exact .inr (.inr ⟨t, ht, hany, hnull, .inl ⟨f, hf, rfl⟩⟩)
    | none =>
      rw [hf] at hm
      dsimp only at hm
      cases hs : t.static? r.caseSensitive r.name with
      | some s =>
        rw [hs] at hm
        cases hm
        exact .inr (.inl ⟨s.value, rfl⟩)
      | none =>
        rw [hs] at hm
        dsimp only at hm
        split at hm
        · next hdynamic =>
          cases hvar : t.variableKind? r.caseSensitive r.name with
          | some k =>
            rw [hvar] at hm
            cases hm
            refine .inr (.inr ⟨t, ht, hany, hnull, .inr ⟨?_, rfl⟩⟩)
            simp [HostType.known?, hf, hs, hdynamic, hvar]
          | none =>
            rw [hvar] at hm
            cases hstrict : r.strict <;> rw [hstrict] at hm <;> cases hm
            exact .inl rfl
        · cases hm

/-! ### Records -/

/-- The kind that a record tells of an entry: one that is null may become anything. -/
def Value.shown (w : World) (v : Value) : Kind :=
  match v.kind w with
  | .null => .any
  | k => k

def World.entries (w : World) (ref : Nat) : Table Value := (w.object ref).entries?.getD .empty

theorem HostType.known?_record (ref : Nat) (cs : Bool) (name : String) :
    (h.objectType w (.record ref)).known? w cs name = ((w.entries ref).lookup cs name).map (Value.shown w) := by
  have hfield : (h.objectType w (.record ref)).field? cs name = none := Table.lookup_empty _ _
  have hstatic : (h.objectType w (.record ref)).static? cs name = none := Table.lookup_empty _ _
  unfold known?
  rw [hfield, hstatic]
  exact Table.lookup_map _ _ cs name

theorem Kind.interchangeable_record_iff {ref ref' : Nat} :
    (Kind.object (.record ref)).Interchangeable h w (.object (.record ref')) ↔
      ∀ cs name, ((w.entries ref).lookup cs name).map (Value.shown w) ==
        ((w.entries ref').lookup cs name).map (Value.shown w) := by
  rw [interchangeable_object_iff]
  constructor
  · intro hshows cs name
    rw [← HostType.known?_record, ← HostType.known?_record]
    exact hshows.known cs name
  · intro hsame
    refine ⟨fun cs name => ?_, rfl⟩
    rw [HostType.known?_record, HostType.known?_record]
    exact hsame cs name

/-! ### Values of members -/

/-- Fields and variables have values of the kinds that are declared for them, whatever a field is read from. -/
structure Host.Truthful (h : Host) (w : World) : Prop where
  field : ∀ {o cs name f}, (h.objectType w o).field? cs name = some f →
    ∀ v, Ensures (Inhabits w f.kind) (f.read w v)
  vars : ∀ {ref vs cs name k}, (w.object ref).vars = some vs →
    (h.objectType w (w.typeOf ref)).variableKind? cs name = some k → Inhabits w k ((vs.get? cs name).getD .null)

/-- A value that a kind tells right: null, or one on whose own kind names resolve as they do on it. -/
def Kind.Tells (h : Host) (w : World) (k : Kind) (v : Value) : Prop :=
  v.isNull = true ∨ (v.kind w).Interchangeable h w k

namespace Host.Truthful

variable {v u : Value}

theorem inhabits_field (hh : h.Truthful w) (ht : h.describe w k = some t) {f : Field}
    (hf : t.field? cs name = some f) (v : Value) : Ensures (Inhabits w f.kind) (f.read w v) := by
  cases k with
  | object o => cases ht; exact hh.field hf v
  | text => cases ht; exact fun u hu => ((Builtin.reliable_textType.field hf).read w v u hu).inhabits
  | list element => cases ht; exact fun u hu => ((Builtin.reliable_listType.field hf).read w v u hu).inhabits
  | _ => cases ht

theorem inhabits_member (hh : h.Truthful w) (hv : v.isNull = false) (ht : h.describe w (v.kind w) = some t)
    (hk : t.known? w cs name = some k) {found : Option Value} (hfound : h.member cs v name w = .ok found) :
    Inhabits w k (found.getD .null) := by
  unfold Host.member at hfound
  rw [hv, ht, if_neg Bool.false_ne_true] at hfound
  unfold HostType.known? at hk
  dsimp only at hfound
  cases hf : t.field? cs name with
  | some f =>
    rw [hf] at hfound hk
    cases hk
    obtain ⟨u, hu, rfl⟩ := exists_of_map_ok hfound
    exact hh.inhabits_field ht hf v u hu
  | none =>
    rw [hf] at hfound hk
    dsimp only at hfound hk
    cases hm : t.static? cs name with
    | some m =>
      rw [hm] at hfound hk
      cases hk
      cases hfound
      exact .kind (Kind.same_refl _)
    | none =>
      rw [hm] at hfound hk
      cases v with
      | object ref =>
        dsimp only at hfound hk
        cases hvars : (w.object ref).vars with
        | none =>
          rw [hvars] at hfound
          cases hfound
          exact .null
        | some vs =>
          rw [hvars] at hfound
          cases hfound
          rw [Value.kind_eq] at ht
          cases ht
          split at hk
          · exact hh.vars hvars hk
          · cases hk
      | _ =>
        cases hfound
        exact .null

theorem inhabits_told (hh : h.Truthful w) (hv : k.Tells h w v) (hany : k ≠ .any) (hnull : k ≠ .null)
    (ht : h.describe w k = some t) (hknown : t.known? w cs name = some k') {found : Option Value}
    (hfound : h.member cs v name w = .ok found) : Inhabits w k' (found.getD .null) := by
  cases hn : v.isNull with
  | true =>
    unfold Host.member at hfound
    rw [if_pos hn] at hfound
    cases hfound
    exact .null
  | false =>
    have hinter := hv.resolve_left (by rw [hn]; exact Bool.false_ne_true)
    have hsame := Kind.interchangeable_iff_memberKind?.1 hinter cs true name
    have hvany : v.kind w ≠ .any := fun hk => by simpa [hk, Kind.isAny] using v.isAny_kind w
    have hvnull : v.kind w ≠ .null := fun hk => by simpa [hk, Kind.isNull, hn] using v.isNull_kind w
    rw [memberKind?_of_settled hany hnull, ht, Option.bind_some, hknown, Option.some_or,
      memberKind?_of_settled hvany hvnull] at hsame
    cases hdescribe : h.describe w (v.kind w) with
    | none => rw [hdescribe] at hsame; cases hsame
    | some t' =>
      cases hknown' : t'.known? w cs name with
      | none => simp [hdescribe, hknown'] at hsame
      | some k'' =>
        have hk'' : k'' == k' := by simpa [hdescribe, hknown'] using hsame
        exact (hh.inhabits_member hn hdescribe hknown' hfound).of_same hk''

/-- The member compiled for a receiver gives values of its kind, where the receiver's kind tells its values right. -/
theorem inhabits_memberOf (hh : h.Truthful w) {r : NameRequest} {m : Typed} (hm : memberOf h w r = some m) {e e' : Env}
    (htells : ∀ v e₁, r.receiver.code.run h e = (.ok v, e₁) → r.receiver.kind.Tells h w v)
    (hrun : m.code.run h e = (.ok u, e')) (hworld : e'.world = w) : Inhabits w m.kind u := by
  obtain hk | ⟨v, rfl⟩ | ⟨t, ht, hany, hnull, hmember⟩ := memberOf_cases hm
  · rw [hk]
    exact .any
  · rw [Typed.const, Code.run] at hrun
    cases hrun
    exact .kind (Kind.same_refl _)
  · obtain ⟨f, hf, rfl⟩ | ⟨hknown, hcode⟩ := hmember
    · rw [Code.run] at hrun
      obtain ⟨v, e₁, hv, hrun⟩ := Flow.bind_ok hrun
      split at hrun
      · cases hrun
        exact .null
      · obtain ⟨hread, rfl⟩ := Flow.look_ok hrun
        exact hh.inhabits_field ht hf v u (hworld ▸ hread)
    · rw [hcode, Code.run] at hrun
      obtain ⟨v, e₁, hv, hlook⟩ := Flow.bind_ok hrun
      obtain ⟨found, e₂, hfound, hvalue⟩ := Flow.bind_ok hlook
      obtain ⟨hfound, rfl⟩ := Flow.look_ok hfound
      cases hvalue
      exact hh.inhabits_told (htells v _ hv) hany hnull ht hknown (hworld ▸ hfound)

end Host.Truthful

theorem Value.inhabits_shown (w : World) (v : Value) : Inhabits w (v.shown w) v := by
  unfold shown
  split
  · exact .any
  · exact .kind (Kind.same_refl _)

theorem Host.truthful_of_records (hfields : ∀ id, (h.type id).fields = .empty)
    (hw : ∀ ref, ∃ entries, w.object ref = .record entries) : h.Truthful w where
  field := by
    intro o cs name f hf
    cases o with
    | record ref => cases (Table.lookup_empty cs name).symm.trans hf
    | declared id n =>
      rw [HostType.field?, objectType, hfields, Table.lookup_empty] at hf
      cases hf
  vars := by
    intro ref vs cs name k hvars hk
    obtain ⟨entries, hobject⟩ := hw ref
    have htype : w.typeOf ref = .record ref := by rw [World.typeOf, hobject]; rfl
    have hentries : w.entries ref = entries := by rw [World.entries, hobject]; rfl
    rw [htype] at hk
    have hget : vs.get? cs name = entries.lookup cs name := by
      rw [hobject] at hvars
      cases hvars
      cases cs <;> rfl
    have hknown : ((w.entries ref).lookup cs name).map (Value.shown w) = some k :=
      (Table.lookup_map _ _ cs name).symm.trans hk
    rw [hentries] at hknown
    obtain ⟨v, hv, rfl⟩ := Option.map_eq_some_iff.1 hknown
    rw [hget, hv]
    exact v.inhabits_shown w

/-! ### Branches of equal kinds -/

namespace Setting

variable {test yes no : Typed} {e : Env}

theorem choice_of_same (test : Typed) (hk : yes.kind == no.kind) (yesSpan noSpan : Span) :
    choice test yes no yesSpan noSpan = .ok ⟨.choice test.code yes.code no.code, yes.kind⟩ := by
  have hmeet : yes.kind.ofBranches no.kind = yes.kind := if_pos hk
  have hyes : yes.coerceTo yes.kind yesSpan = .ok yes := if_pos (Kind.assignable_of_same (Kind.same_refl _))
  have hno : no.coerceTo yes.kind noSpan = .ok no :=
    if_pos (Kind.assignable_of_same ((Kind.same_comm _ _).trans hk))
  unfold choice
  dsimp only
  rw [hmeet, hyes, hno]
  rfl

/-- The branch that is taken gives only values that its kind tells right. -/
def BranchTells (h : Host) (w : World) (test yes no : Typed) (e : Env) : Prop :=
  ∀ b e₁ v e₂, test.code.run h e = (.ok b, e₁) → (if b.truth then yes else no).code.run h e₁ = (.ok v, e₂) →
    (if b.truth then yes else no).kind.Tells h w v

/-- What a choice gives is told right by the kind of its first branch, where the kinds are interchangeable. -/
theorem BranchTells.choice (hb : BranchTells h w test yes no e) (hk : yes.kind.Interchangeable h w no.kind)
    {v : Value} {e' : Env} (hrun : (Code.choice test.code yes.code no.code).run h e = (.ok v, e')) :
    yes.kind.Tells h w v := by
  rw [Code.run] at hrun
  obtain ⟨b, e₁, htest, hbranch⟩ := Flow.bind_ok hrun
  have htells := hb b e₁ v e' htest
  split at hbranch
  · next htruth =>
    rw [if_pos htruth] at htells
    exact htells hbranch
  · next htruth =>
    rw [if_neg htruth] at htells
    exact (htells hbranch).imp_right fun hv => hv.trans hk.symm

end Setting

/-- Equal kinds are interchangeable for the members of receivers exactly if the types behind them show alike, where they
are kinds of objects; two records do if they hold values of equal kinds under the same names. The branches of a
conditional may then be of either kind: in a world that stays the same, a member of what the conditional gives is of
the kind that is told of it. -/
theorem equal_kinds_interchange_by_type (h : Host) (w : World) {k k' : Kind} (hk : k == k') :
    (k.Interchangeable h w k' ↔
      ∀ o o', k = .object o → k' = .object o' → (h.objectType w o).ShowsLike w (h.objectType w o')) ∧
    (∀ ref ref', k = .object (.record ref) → k' = .object (.record ref') → (k.Interchangeable h w k' ↔
      ∀ cs name, ((w.entries ref).lookup cs name).map (Value.shown w) ==
        ((w.entries ref').lookup cs name).map (Value.shown w))) ∧
    (k.Interchangeable h w k' → h.Truthful w → ∀ test yes no : Typed, yes.kind = k → no.kind = k' →
      ∀ yesSpan noSpan, ∃ t, Setting.choice test yes no yesSpan noSpan = .ok t ∧ t.kind = k ∧
        ∀ (r : NameRequest) (m : Typed), r.receiver = t → memberOf h w r = some m → ∀ e u e',
          Setting.BranchTells h w test yes no e → m.code.run h e = (.ok u, e') → e'.world = w →
            Inhabits w m.kind u) := by
  refine ⟨Kind.interchangeable_iff hk, ?_, ?_⟩
  · rintro ref ref' rfl rfl
    exact Kind.interchangeable_record_iff
  · rintro hinter hh test yes no rfl rfl yesSpan noSpan
    refine ⟨_, Setting.choice_of_same test hk yesSpan noSpan, rfl, ?_⟩
    intro r m hr hm e u e' hb hrun hworld
    refine hh.inhabits_memberOf hm (fun v e₂ hv => ?_) hrun hworld
    rw [hr] at hv ⊢
    exact hb.choice hinter hv

/-- Two records with integers under one name and texts under another. -/
theorem equal_kinds_interchange_by_type_records :
    let first : Table Value := ⟨[("x", .int 1 .i32), ("note", .text "a")]⟩
    let second : Table Value := ⟨[("x", .int 2 .i32), ("note", .text "b")]⟩
    let w : World := { World.empty with objects := #[.record first, .record second] }
    let yes : Typed := .const w (.object 0)
    let no : Typed := .const w (.object 1)
    yes.kind == no.kind ∧ yes.kind.Interchangeable .empty w no.kind ∧ Host.empty.Truthful w ∧
      ∃ t m, Setting.choice (.const w (.bool false)) yes no default default = .ok t ∧
        memberOf .empty w ⟨t, "x", none, default, true, true⟩ = some m ∧
        m.code.run .empty (.init .null 0 w) = (.ok (.int 2 .i32), .init .null 0 w) ∧
        Inhabits w m.kind (.int 2 .i32) := by
  intro first second w yes no
  have hk : yes.kind == no.kind := rfl
  obtain ⟨-, hrecords, hbranches⟩ := equal_kinds_interchange_by_type .empty w hk
  have hinter : yes.kind.Interchangeable .empty w no.kind := by
    refine (hrecords 0 1 rfl rfl).2 fun cs name => ?_
    rw [← Table.lookup_map, ← Table.lookup_map]
    exact Kind.optionSame_refl _
  have htruthful : Host.empty.Truthful w := by
    refine Host.truthful_of_records (fun id => ?_) fun ref => ?_
    · rfl
    · match ref with
      | 0 => exact ⟨first, rfl⟩
      | 1 => exact ⟨second, rfl⟩
      | n + 2 => exact ⟨.empty, rfl⟩
  obtain ⟨t, ht, -, hmembers⟩ := hbranches hinter htruthful (.const w (.bool false)) yes no rfl rfl default default
  cases ht
  have hb : Setting.BranchTells .empty w (.const w (.bool false)) yes no (.init .null 0 w) := by
    rintro _ _ _ _ ⟨⟩ ⟨⟩
    exact .inr (.refl _ _ _)
  let r : NameRequest := ⟨⟨.choice (.const (.bool false)) yes.code no.code, yes.kind⟩, "x", none, default, true, true⟩
  have hinhabits := hmembers r ⟨.property r.receiver.code "x" true, .int .i32⟩ rfl rfl _ _ _ hb rfl rfl
  exact ⟨hk, hinter, htruthful, _, _, rfl, rfl, rfl, hinhabits⟩

/-- Two records with an integer and a text under one name: their kinds are equal, and a conditional between them has a
member whose kind is that of integers and whose value is the text. -/
theorem equal_kinds_mislead :
    let w : World := { World.empty with objects := #[.record ⟨[("a", .object 1), ("b", .object 2)]⟩,
      .record ⟨[("x", .int 1 .i32)]⟩, .record ⟨[("x", .text "t")]⟩] }
    let s : Setting := ⟨.empty, w, .init .empty w ((Value.object 0).kind w), .empty, [], [], true, false⟩
    let x (v : Value) : NameRequest := ⟨.const w v, "x", none, default, true, false⟩
    ((Value.object 1).kind w == (Value.object 2).kind w) = true ∧
      (memberOf .empty w (x (.object 1))).map (·.kind) = some (.int .i32) ∧
      (memberOf .empty w (x (.object 2))).map (·.kind) = some .text ∧
      ∃ t, s.elaborateText "(false ? a : b).x" 0 = .ok t ∧ t.kind = .int .i32 ∧
        (t.evaluate .empty (.object 0) w).1 = .ok (.text "t") ∧ ¬ Inhabits w t.kind (.text "t") := by
  intro w s x
  let entry (name : String) (ref : Nat) : Code := .variable 0 name (.object (.record ref)) true
  let member : Code := .property (.choice (.const (.bool false)) (entry "a" 1) (entry "b" 2)) "x" true
  refine ⟨rfl, rfl, rfl, ⟨member, .int .i32⟩, ?_, rfl, rfl, fun hinhabits => ?_⟩
  · with_unfolding_all rfl
  · cases hinhabits with
    | kind hkind => cases hkind

end Stencil
