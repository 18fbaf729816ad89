import Stencil.Proofs.Host.Builtin
import Stencil.Proofs.Operator.Exactness
set_option autoImplicit false

namespace Stencil

/-- A value made of records, which are the objects with some references. -/
inductive Value.OfRecords (R : Nat → Prop) : Value → Prop
  | null : OfRecords R .null
  | bool (b : Bool) : OfRecords R (.bool b)
  | int (n : Int) (k : IntKind) : OfRecords R (.int n k)
  | float (x : Float) (k : FloatKind) : OfRecords R (.float x k)
  | text (s : String) : OfRecords R (.text s)
  | pattern (r : Regex) : OfRecords R (.pattern r)
  | list {items : List Value} : (∀ v ∈ items, OfRecords R v) → OfRecords R (.list items)
  | object {ref : Nat} : R ref → OfRecords R (.object ref)

def Kind.OfRecords (R : Nat → Prop) : Kind → Prop
  | .enum _ | .function | .object (.declared _ _) => False
  | .object (.record ref) => R ref
  | .list k => k = .any
  | _ => True

/-- The objects with these references are records, of values made of these records. -/
def World.Records (w : World) (R : Nat → Prop) : Prop :=
  ∀ ref, R ref → ∃ entries, w.object ref = .record entries ∧ ∀ e ∈ entries.entries, e.2.OfRecords R

variable {w : World} {R : Nat → Prop} {l r v u : Value} {kl kr k j : Kind}

theorem World.Records.kind (hw : w.Records R) (hv : v.OfRecords R) : (v.kind w).OfRecords R := by
  cases hv with
  | @object ref href =>
    obtain ⟨entries, hobject, -⟩ := hw ref href
    rw [Value.kind, hobject]
    exact href
  | _ => trivial

theorem Value.OfRecords.getD {o : Option Value} (ho : ∀ v, o = some v → v.OfRecords R) :
    (o.getD .null).OfRecords R := by
  cases o with
  | none => exact .null
  | some v => exact ho v rfl

theorem Value.From.ofRecords {given : Value → Prop} (h : v.From given) (hgiven : ∀ u, given u → u.OfRecords R) :
    v.OfRecords R := by
  induction h with
  | given h => exact hgiven _ h
  | item _ hmem ih =>
    cases ih with
    | list hitems => exact hitems _ hmem
  | null => exact .null
  | bool b => exact .bool b
  | int => exact .int _ _
  | float x k => exact .float x k
  | text s => exact .text s
  | enum _ _ ih | underlying _ ih => cases ih
  | list _ ih => exact .list ih

theorem World.Records.lookup (hw : w.Records R) {ref : Nat} (href : R ref) {entries : Table Value}
    (hobject : w.object ref = .record entries) {cs : Bool} {name : String} {v : Value}
    (hv : entries.lookup cs name = some v) : v.OfRecords R := by
  obtain ⟨entries', hobject', hentries⟩ := hw ref href
  cases hobject.symm.trans hobject'
  obtain ⟨n, hn⟩ := Table.mem_of_lookup hv
  exact hentries _ hn

namespace BinaryOp

variable {op : BinaryOp}

theorem ofRecords_kind (hop : op ≠ coalesce) (hl : kl.OfRecords R) (hk : op.kind kl kr = .ok k) :
    k.OfRecords R := by
  cases op with
  | coalesce => exact (hop rfl).elim
  | eq | ne | and | or => cases hk; trivial
  | matched | unmatched =>
    rw [kind_match (by simp)] at hk
    split at hk <;> cases hk
    trivial
  | lt | le | gt | ge => cases kind_relational_bool rfl hk; trivial
  | mul | div | rem | add | sub =>
    obtain ⟨-, rfl⟩ | rfl | ⟨-, -, hp⟩ := kind_arithmetic_cases rfl hk
    · trivial
    · trivial
    · cases kl <;> cases kr <;> simp [Kind.promote, Kind.number?, Kind.integral?] at hp <;> subst hp <;> trivial
  | bitAnd | bitXor | bitOr =>
    obtain rfl | ⟨-, -, rfl⟩ | ⟨-, -, rfl | ⟨j, rfl⟩⟩ := kind_bitwise_cases rfl hk
    · trivial
    · trivial
    · exact hl
    · trivial

theorem ofRecords_apply (hl : l.OfRecords R) (hr : r.OfRecords R) (h : op.apply w l r = .ok v) : v.OfRecords R := by
  refine ((op.gives_apply w l r).ensures v h).ofRecords ?_
  rintro _ (rfl | rfl)
  · exact hl
  · exact hr

end BinaryOp

namespace UnaryOp

variable {op : UnaryOp}

theorem ofRecords_kind (hk : k.OfRecords R) (h : op.kind k = .ok j) : j.OfRecords R := by
  obtain ⟨-, rfl⟩ | rfl | ⟨-, -, rfl | ⟨i, rfl⟩⟩ := kind_cases h
  · trivial
  · trivial
  · exact hk
  · trivial

theorem ofRecords_apply (hv : v.OfRecords R) (h : op.apply w v = .ok u) : u.OfRecords R :=
  ((op.gives_apply w v).ensures u h).ofRecords fun _ hu => hu ▸ hv

end UnaryOp

namespace Builtin

variable {cs : Bool} {name : String} {f : Field}

theorem ofRecords_kind_textField (hf : textType.field? cs name = some f) : f.kind.OfRecords R := by
  obtain rfl := List.mem_singleton.1 (mem_of_field? rfl hf)
  trivial

theorem ofRecords_kind_listField (hf : listType.field? cs name = some f) : f.kind.OfRecords R := by
  have hf := mem_of_field? rfl hf
  simp only [List.mem_cons, List.not_mem_nil, or_false] at hf
  obtain rfl | rfl | rfl | rfl := hf <;> trivial

theorem exact_textField (hf : textType.field? cs name = some f) (h : f.read w v = .ok u) : f.kind.Exact w u := by
  obtain rfl := List.mem_singleton.1 (mem_of_field? rfl hf)
  obtain ⟨cs, -, hu⟩ := exists_of_bind_ok h
  cases hu
  exact .inr rfl

theorem exact_listField (hf : listType.field? cs name = some f) (h : f.read w v = .ok u) : f.kind.Exact w u := by
  have hf := mem_of_field? rfl hf
  simp only [List.mem_cons, List.not_mem_nil, or_false] at hf
  obtain rfl | rfl | rfl | rfl := hf <;> obtain ⟨vs, -, hu⟩ := exists_of_bind_ok h <;> cases hu
  · exact .inr rfl
  · exact .inr rfl
  · exact .inl rfl
  · exact .inl rfl

theorem Drawn.ofRecords (hu : Drawn k v u) (hv : v.OfRecords R) : u.OfRecords R :=
  hu.made.ofRecords fun _ h => h ▸ hv

end Builtin

namespace Host

theorem ofRecords_index (hw : w.Records R) {i : Value} (hv : v.OfRecords R) (h : index w v i = .ok u) :
    u.OfRecords R := by
  cases hv with
  | null => cases h; exact .null
  | text s =>
    obtain ⟨n, -, hu⟩ := exists_of_bind_ok h
    cases hu
    exact .text _
  | @list items hitems =>
    obtain ⟨n, -, hu⟩ := exists_of_bind_ok h
    cases hu
    rw [List.getD_eq_getElem?_getD]
    exact .getD fun v hv => hitems v (List.mem_of_getElem? hv)
  | @object ref href =>
    obtain ⟨entries, hobject, -⟩ := hw ref href
    unfold index at h
    dsimp only at h
    cases i with
    | text name =>
      rw [hobject] at h
      cases h
      exact .getD fun v hv => hw.lookup href hobject hv
    | _ =>
      rw [hobject] at h
      cases h
  | _ => cases h

variable {h : Host} {cs : Bool} {name : String}

theorem member_record {ref : Nat} {entries : Table Value} (hobject : w.object ref = .record entries) :
    h.member cs (.object ref) name w = .ok (some ((entries.lookup cs name).getD .null)) := by
  have hkind : (Value.object ref).kind w = .object (.record ref) := by
    rw [Value.kind, hobject]
    rfl
  unfold member
  rw [hkind]
  simp only [Value.isNull, Bool.false_eq_true, if_false, describe, objectType, HostType.field?, HostType.static?,
    HostType.ofRecord, HostType.named, Table.lookup_empty, hobject, Object.record, Variables.get?,
    Bool.not_true, Bool.or_false]

theorem member_fields {t : HostType} (hnull : v.isNull = false) (hobject : ∀ ref, v ≠ .object ref)
    (ht : h.describe w (v.kind w) = some t) (hstatics : t.statics = .empty) :
    h.member cs v name w = match t.field? cs name with
      | some f => (f.read w v).map some
      | none => .ok none := by
  unfold member
  rw [hnull, ht]
  cases hf : t.field? cs name with
  | some f => simp only [Bool.false_eq_true, if_false, hf]
  | none => simp only [Bool.false_eq_true, if_false, hf, HostType.static?, hstatics, Table.lookup_empty]

theorem ofRecords_member (hw : w.Records R) (hv : v.OfRecords R)
    (h : h.member cs v name w = .ok (some u)) : u.OfRecords R := by
  cases hv with
  | null => cases h; exact .null
  | text s =>
    rw [member_fields (v := .text s) rfl nofun rfl rfl] at h
    split at h
    · next f hf =>
      obtain ⟨u', hu, hsome⟩ := exists_of_map_ok h
      cases hsome
      exact ((Builtin.gives_textField hf w _).ensures _ hu).ofRecords (.text s)
    · cases h
  | @list items hitems =>
    rw [member_fields (v := .list items) rfl nofun rfl rfl] at h
    split at h
    · next f hf =>
      obtain ⟨u', hu, hsome⟩ := exists_of_map_ok h
      cases hsome
      exact ((Builtin.gives_listField hf w _).ensures _ hu).ofRecords (.list hitems)
    · cases h
  | @object ref href =>
    obtain ⟨entries, hobject, -⟩ := hw ref href
    rw [member_record hobject] at h
    cases h
    exact .getD fun v hv => hw.lookup href hobject hv
  | _ => cases h

end Host

end Stencil
