import Stencil.Proofs.Run.Flow
import Stencil.Proofs.Value.Outlook
set_option autoImplicit false

namespace Stencil

section

variable {α β : Type}

/-- Two questions that have one answer in related worlds, and the answer satisfies a condition. -/
def Looks (R : World → World → Prop) (P : α → Prop) (f g : World → Except Failure α) : Prop :=
  ∀ w w', R w w' → g w' = f w ∧ Ensures P (f w)

/-- An action that has one result in related worlds, which satisfies a condition, and leaves related worlds. -/
def Acts (R : World → World → Prop) (P : α → Prop) (a : Act α) : Prop :=
  ∀ w w', R w w' → (a w').1 = (a w).1 ∧ R (a w).2 (a w').2 ∧ Ensures P (a w).1

namespace Acts

variable {R : World → World → Prop} {P : α → Prop} {Q : β → Prop}

theorem outcomes {a : Act α} (ha : Acts R P a) {w w' : World} (hw : R w w') :
    ∃ r u u', a w = (r, u) ∧ a w' = (r, u') ∧ R u u' ∧ Ensures P r := by
  obtain ⟨hsame, hworld, hP⟩ := ha w w' hw
  exact ⟨(a w).1, (a w).2, (a w').2, rfl, Prod.ext hsame rfl, hworld, hP⟩

theorem value {a : α} (ha : P a) : Acts R P (pure a) := fun _ _ hw => ⟨rfl, hw, .ok ha⟩

theorem fail (f : Failure) : Acts R P (throw f) := fun _ _ hw => ⟨rfl, hw, .error⟩

theorem look {f : World → Except Failure α} (hf : Looks R P f f) : Acts R P (Act.ofWorld f) := by
  intro w w' hw
  obtain ⟨hsame, hP⟩ := hf w w' hw
  exact ⟨hsame, hw, hP⟩

theorem bind {x : Act β} {f : β → Act α} (hx : Acts R Q x) (hf : ∀ b, Q b → Acts R P (f b)) :
    Acts R P (x >>= f) := by
  intro w w' hw
  obtain ⟨r, u, u', hr, hr', hafter, hQ⟩ := hx.outcomes hw
  rw [Act.bind_apply, Act.bind_apply, hr, hr']
  cases r with
  | error f => exact ⟨rfl, hafter, .error⟩
  | ok b => exact hf b (hQ b rfl) _ _ hafter

/-- An action that starts with a look at the world, and whose further course is the same in related worlds. -/
theorem reading {f : World → Act α} (hsame : ∀ w w', R w w' → f w' = f w)
    (hf : ∀ w w', R w w' → Acts R P (f w)) : Acts R P (get >>= f) := by
  intro w w' hw
  rw [Act.bind_apply, Act.bind_apply, show (get : Act World) w = (.ok w, w) from rfl,
    show (get : Act World) w' = (.ok w', w') from rfl]
  dsimp only
  rw [hsame w w' hw]
  exact hf w w' hw w w' hw

end Acts

end

variable {o : Outlook}

theorem Outlook.looks {α : Type} {P : α → Prop} {f : World → Except Failure α}
    (hsame : ∀ w w', w.Agree o.parts w' → f w' = f w) (hP : ∀ w, w.MadeOf o.parts → Ensures P (f w)) :
    Looks o.world P f f :=
  fun w w' hw => ⟨hsame w w' (o.agree hw), hP w (o.agree hw).madeOf⟩

section

variable (o)

def Field.Discreet (f : Field) : Prop :=
  ∀ v, v.MadeOf o.parts → Looks o.world (Value.MadeOf o.parts) (f.read · v) (f.read · v)

def Method.Discreet (m : Method) : Prop :=
  ∀ v args, v.MadeOf o.parts → (∀ a ∈ args, a.MadeOf o.parts) →
    Acts o.world (Value.MadeOf o.parts) (m.run v args)

structure HostType.Discreet (t : HostType) : Prop where
  field : ∀ {cs name f}, t.field? cs name = some f → f.Discreet o
  static : ∀ {cs name m}, t.static? cs name = some m → m.value.MadeOf o.parts
  method : ∀ m ∈ t.methods, m.Discreet o

structure Host.Discreet (h : Host) : Prop where
  type : ∀ id, (h.type id).Discreet o
  call : ∀ ref args, (∀ a ∈ args, a.MadeOf o.parts) → Acts o.world (Value.MadeOf o.parts) (h.call ref args)

end

variable {w w' : World} {p : Parts} {v : Value} {args : List Value}

namespace World.Agree

theorem text (hw : w.Agree p w') (v : Value) : Builtin.text w' v = Builtin.text w v := by
  simp only [Builtin.text, hw.kind]

theorem items (hw : w.Agree p w') (v : Value) : Builtin.items w' v = Builtin.items w v := by
  simp only [Builtin.items, hw.kind]

theorem textArg (hw : w.Agree p w') (args : List Value) (n : Nat) :
    Builtin.textArg w' args n = Builtin.textArg w args n := by
  simp only [Builtin.textArg, hw.text]

theorem intArg (hw : w.Agree p w') (args : List Value) (n : Nat) :
    Builtin.intArg w' args n = Builtin.intArg w args n := by
  simp only [Builtin.intArg, hw.kind]

end World.Agree

namespace Builtin

theorem Drawn.madeOf {k : Kind} {u : Value} (hu : Drawn k v u) (hv : v.MadeOf p) : u.MadeOf p :=
  hu.made.madeOf fun _ h => h ▸ hv

theorem discreet_textType_fields {cs : Bool} {name : String} {f : Field}
    (hf : textType.field? cs name = some f) : f.Discreet o := by
  intro v hv
  refine o.looks (fun w w' hw => ?_) fun w _ u hu => ((gives_textField hf w v).ensures u hu).madeOf hv
  obtain rfl := List.mem_singleton.1 (mem_of_field? rfl hf)
  dsimp only
  rw [hw.text]

theorem discreet_listType_fields {cs : Bool} {name : String} {f : Field}
    (hf : listType.field? cs name = some f) : f.Discreet o := by
  intro v hv
  refine o.looks (fun w w' hw => ?_) fun w _ u hu => ((gives_listField hf w v).ensures u hu).madeOf hv
  have hmem := mem_of_field? rfl hf
  simp only [List.mem_cons, List.not_mem_nil, or_false] at hmem
  obtain rfl | rfl | rfl | rfl := hmem <;> dsimp only <;> rw [hw.items]

theorem discreet_pureMethod {name : String} {params : List Kind} {returns : Kind}
    {f : World → Value → List Value → Except Failure Value}
    (hsame : ∀ v args, v.MadeOf o.parts → (∀ a ∈ args, a.MadeOf o.parts) → ∀ w w', w.Agree o.parts w' →
      f w' v args = f w v args)
    (hgives : ∀ v args w, Gives (Drawn returns v) (f w v args)) : (pureMethod name params returns f).Discreet o :=
  fun v args hv hargs =>
    .look (o.looks (hsame v args hv hargs) fun w _ u hu => ((hgives v args w).ensures u hu).madeOf hv)

theorem discreet_textType_methods {m : Method} (hm : m ∈ textType.methods) : m.Discreet o := by
  have hgives := gives_textMethod hm
  simp only [textType, List.mem_cons, List.not_mem_nil, or_false] at hm
  obtain rfl | rfl | rfl | rfl | rfl | rfl | rfl | rfl | rfl | rfl | rfl := hm <;>
    refine discreet_pureMethod (fun v args _ _ w w' hw => ?_) hgives <;> simp only [hw.text, hw.textArg, hw.intArg]

theorem discreet_listType_methods {m : Method} (hm : m ∈ listType.methods) : m.Discreet o := by
  have hgives := gives_listMethod hm
  simp only [listType, List.mem_cons, List.not_mem_nil, or_false] at hm
  obtain rfl | rfl := hm <;> refine discreet_pureMethod (fun v args hv hargs w w' hw => ?_) hgives
  · -- whether a list has a value: its items are compared one by one
    rw [hw.items]
    cases hv with
    | list hitems =>
      have harg : (args.head?.getD .null).MadeOf o.parts := .getD fun a ha => hargs a (List.mem_of_head? ha)
      have hall := List.map_congr_left fun item hitem => hw.equals (hitems item hitem) harg
      have hany := congrArg (List.any · id) hall
      simp only [List.any_map, Function.comp_def, id] at hany
      dsimp only [items, bind, Except.bind]
      rw [hany]
    | _ => dsimp only [items, bind, Except.bind]
  · rw [hw.items, hw.textArg]
    cases hv with
    | list hitems =>
      have hshown := List.map_congr_left fun item hitem => congrArg String.toList (hw.display (hitems item hitem))
      dsimp only [items, bind, Except.bind]
      rw [hshown]
    | _ => dsimp only [items, bind, Except.bind]

end Builtin

namespace HostType

theorem discreet_named (name : TypeName) : (named name).Discreet o :=
  ⟨fun h => by simp [field?, named, Table.lookup_empty] at h,
    fun h => by simp [static?, named, Table.lookup_empty] at h, nofun⟩

theorem discreet_ofRecord (w : World) (entries : Table Value) : (ofRecord w entries).Discreet o :=
  have hnamed := discreet_named ObjectType.recordName
  ⟨hnamed.field, hnamed.static, hnamed.method⟩

end HostType

namespace Host

theorem discreet_empty : Host.empty.Discreet o :=
  ⟨fun _ => HostType.discreet_named default, fun _ _ _ => .value .null⟩

variable {h : Host}

theorem describe_agree (h : Host) (hw : w.Agree p w') (hv : v.MadeOf p) :
    h.describe w' (v.kind w') = h.describe w (v.kind w) := by
  rw [hw.kind]
  cases hv with
  | @object ref href =>
    have htype (t : ObjectType) (ht : ∀ r, t = .record r → r = ref) : h.objectType w' t = h.objectType w t := by
      cases t with
      | declared id name => rfl
      | record r =>
        cases ht r rfl
        simp only [objectType, HostType.ofRecord, hw.object ref href, hw.kind]
    dsimp only [Value.kind]
    cases (w.object ref).type with
    | record => exact congrArg some (htype _ fun r hr => by cases hr; rfl)
    | declared id name => rfl
  | _ => rfl

theorem Discreet.describe (hh : h.Discreet o) {kind : Kind} {t : HostType} (ht : h.describe w kind = some t) :
    t.Discreet o := by
  cases kind with
  | text =>
    cases ht
    refine ⟨Builtin.discreet_textType_fields, ?_, fun m hm => Builtin.discreet_textType_methods hm⟩
    intro cs name m hm
    simp [HostType.static?, Builtin.textType, HostType.named, Table.lookup_empty] at hm
  | list =>
    cases ht
    refine ⟨Builtin.discreet_listType_fields, ?_, fun m hm => Builtin.discreet_listType_methods hm⟩
    intro cs name m hm
    simp [HostType.static?, Builtin.listType, HostType.named, Table.lookup_empty] at hm
  | object t =>
    cases ht
    cases t with
    | declared id name => exact hh.type id
    | record ref => exact HostType.discreet_ofRecord w _
  | _ => cases ht

theorem Discreet.member (hh : h.Discreet o) (hv : v.MadeOf o.parts) (cs : Bool) (name : String) :
    Looks o.world (fun found => ∀ u ∈ found, u.MadeOf o.parts) (h.member cs v name) (h.member cs v name) := by
  intro w w' hw
  have hagree := o.agree hw
  unfold Host.member
  rw [h.describe_agree hagree hv]
  split
  · exact ⟨rfl, .ok fun u hu => by cases hu; exact .null⟩
  · cases ht : h.describe w (v.kind w) with
    | none => exact ⟨rfl, .ok nofun⟩
    | some t =>
      have htype := hh.describe ht
      dsimp only
      cases hf : t.field? cs name with
      | some f =>
        obtain ⟨hsame, hmade⟩ := htype.field hf v hv w w' hw
        dsimp only at hsame ⊢
        refine ⟨by rw [hsame], fun found hfound => ?_⟩
        obtain ⟨u, hu, rfl⟩ := exists_of_map_ok hfound
        rintro _ ⟨⟩
        exact hmade u hu
      | none =>
        cases hs : t.static? cs name with
        | some m => exact ⟨rfl, .ok fun u hu => by cases hu; exact htype.static hs⟩
        | none =>
          cases hv with
          | @object ref href =>
            dsimp only
            rw [hagree.object ref href]
            refine ⟨rfl, ?_⟩
            split
            · next vs hvs => exact .ok fun u hu => by cases hu; exact (hagree.madeOf ref href).lookup hvs cs name
            · exact .ok nofun
          | _ => exact ⟨rfl, .ok nofun⟩

theorem Discreet.callValue (hh : h.Discreet o) (hargs : ∀ a ∈ args, a.MadeOf o.parts) (callee : Value)
    (name : String) : Acts o.world (Value.MadeOf o.parts) (h.callValue callee name args) := by
  cases callee with
  | function ref => exact hh.call ref args hargs
  | _ =>
    refine .reading (fun w w' hw => ?_) fun _ _ _ => .fail _
    rw [(o.agree hw).kind]

theorem convertArgs_agree (hw : w.Agree p w') (ps : List Kind) (args : List Value) :
    convertArgs w' ps args = convertArgs w ps args := by
  induction ps generalizing args with
  | nil => rfl
  | cons k ps ih =>
    cases args with
    | nil => rfl
    | cons a as => rw [convertArgs, convertArgs, hw.convert, ih]

theorem madeOf_convertArgs (ps : List Kind) (hargs : ∀ a ∈ args, a.MadeOf p) :
    Ensures (fun vs => ∀ v ∈ vs, v.MadeOf p) (convertArgs w ps args) := by
  induction ps generalizing args with
  | nil => exact .ok nofun
  | cons k ps ih =>
    cases args with
    | nil => exact .ok nofun
    | cons a as =>
      rw [List.forall_mem_cons] at hargs
      refine (Value.madeOf_convert hargs.1 k).bind fun v hv => (ih hargs.2).bind fun vs hvs => .ok ?_
      exact List.forall_mem_cons.2 ⟨hv, hvs⟩

theorem runMethod_discreet {m : Method} (hm : m.Discreet o) (hv : v.MadeOf o.parts)
    (hargs : ∀ a ∈ args, a.MadeOf o.parts) : Acts o.world (Value.MadeOf o.parts) (runMethod m v args) := by
  refine Acts.bind (.look (o.looks ?_ fun w _ => madeOf_convertArgs m.params hargs)) fun vs hvs => hm v vs hv hvs
  intro w w' hw
  exact convertArgs_agree hw m.params args

/-- A call settled on a value: a method where the arguments choose one, else the member's value. -/
theorem Discreet.invoke (hh : h.Discreet o) (hv : v.MadeOf o.parts) (hargs : ∀ a ∈ args, a.MadeOf o.parts)
    (cs : Bool) (name : String) : Acts o.world (Value.MadeOf o.parts) (h.invoke cs v name args) := by
  have hbyMember {k : Option Value → Act Value} {f : Failure}
      (hsome : ∀ callee, k (some callee) = h.callValue callee name args) (hnone : k none = throw f) :
      Acts o.world (Value.MadeOf o.parts) (Act.ofWorld (h.member cs v name) >>= k) := by
    refine Acts.bind (.look (hh.member hv cs name)) fun found _ => ?_
    cases found with
    | some callee =>
      rw [hsome]
      exact hh.callValue hargs callee name
    | none =>
      rw [hnone]
      exact .fail f
  unfold Host.invoke
  refine .reading (fun w w' hw => ?_) fun w w' hw => ?_
  · have hkinds : args.map (Value.kind w') = args.map (Value.kind w) :=
      List.map_congr_left fun a _ => (o.agree hw).kind a
    simp only [h.describe_agree (o.agree hw) hv, hkinds]
  · dsimp only
    split
    · exact .value .null
    · cases ht : h.describe w (v.kind w) with
      | none => exact hbyMember (fun _ => rfl) rfl
      | some t =>
        have hmethod (m : Method) (hm : m ∈ t.methodsNamed cs name) :
            Acts o.world (Value.MadeOf o.parts) (runMethod m v args) :=
          runMethod_discreet ((hh.describe ht).method m (HostType.mem_of_methodsNamed hm)) hv hargs
        dsimp only
        cases hselect : Selection.select (t.methodsNamed cs name) (args.map (Value.kind w)) with
        | exact m => exact hmethod m (Selection.mem_of_select (.inl hselect))
        | converted m => exact hmethod m (Selection.mem_of_select (.inr hselect))
        | ambiguous ms => exact .fail _
        | none =>
          dsimp only
          split
          · exact .fail _
          · exact hbyMember (fun _ => rfl) rfl

end Host

end Stencil
