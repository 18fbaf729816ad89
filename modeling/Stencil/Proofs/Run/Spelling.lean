import Stencil.Proofs.Typing.Spelling
/-!
Running templates that differ in the case of names. In an integer as the context nothing but the slots tells them
apart. In a record they set its variables, so two runs leave worlds in which the record's names differ in case,
and values may refer to the record only where they do not.
-/
set_option autoImplicit false

namespace Stencil

/-- All but the references to a record, or these too where it is exposed. -/
def Parts.sparing (root : Nat) (exposed : Prop) : Parts where
  int _ _ := True
  enum _ _ := True
  object ref := ref = root → exposed
  inRange _ := trivial
  enumInRange _ := trivial
  underlying _ := trivial

mutual

theorem Value.madeOf_exposed {root : Nat} {exposed : Prop} (h : exposed) :
    (v : Value) → v.MadeOf (.sparing root exposed)
  | .null => .null
  | .bool b => .bool b
  | .int _ _ => .int trivial
  | .float x k => .float x k
  | .text s => .text s
  | .pattern r => .pattern r
  | .enum _ _ => .enum trivial
  | .list items => .list (Value.madeOf_exposed_all h items)
  | .object _ => .object fun _ => h
  | .function ref => .function ref

theorem Value.madeOf_exposed_all {root : Nat} {exposed : Prop} (h : exposed) :
    (vs : List Value) → ∀ v ∈ vs, v.MadeOf (.sparing root exposed)
  | [] => nofun
  | v :: vs => List.forall_mem_cons.2 ⟨Value.madeOf_exposed h v, Value.madeOf_exposed_all h vs⟩

end

theorem World.madeOf_exposed {root : Nat} {exposed : Prop} (h : exposed) (w : World) :
    w.MadeOf (.sparing root exposed) :=
  fun _ _ => ⟨fun _ _ e _ => e.2.madeOf_exposed h, fun _ _ v _ => v.madeOf_exposed h,
    fun _ _ e _ => e.2.madeOf_exposed h⟩

variable {root : Nat} {exposed : Prop} {all all' : List String} {w w' : World} {es es' : Table Value}

/-- Entries of a record whose names differ at most in case and are among given ones. They do not differ where the
record is exposed. -/
structure EntriesRespelled (root : Nat) (exposed : Prop) (all all' : List String) (es es' : Table Value) : Prop where
  same : exposed → es' = es
  respelled : es.Respelled (fun v v' => v' = v ∧ v.MadeOf (.sparing root exposed)) es'
  names : ∀ n ∈ es.names, n ∈ all
  names' : ∀ n ∈ es'.names, n ∈ all'

/-- Worlds that are the same but for the case of the names in a record. -/
structure World.Respelled (root : Nat) (exposed : Prop) (all all' : List String) (w w' : World) : Prop where
  bound : root < w.objects.size
  madeOf : w.MadeOf (.sparing root exposed)
  record : ∃ es es', w.object root = .record es ∧ w' = w.update root (fun _ => .record es') ∧
    EntriesRespelled root exposed all all' es es'

theorem EntriesRespelled.madeOf (h : EntriesRespelled root exposed all all' es es') :
    ∀ e ∈ es.entries, e.2.MadeOf (.sparing root exposed) := by
  have hes := h.respelled
  unfold Table.Respelled at hes
  revert hes
  generalize es.entries = xs
  generalize es'.entries = ys
  intro hes
  induction hes with
  | nil => exact nofun
  | cons hxy _ ih => exact List.forall_mem_cons.2 ⟨hxy.2.2, ih⟩

namespace World.Respelled

theorem refl (hbound : root < w.objects.size) (hmade : w.MadeOf (.sparing root exposed))
    (hobject : w.object root = .record es) (hes : ∀ e ∈ es.entries, e.2.MadeOf (.sparing root exposed))
    (hnames : ∀ n ∈ es.names, n ∈ all) (hnames' : ∀ n ∈ es.names, n ∈ all') :
    w.Respelled root exposed all all' w := by
  have hput : w = w.update root fun _ => .record es := by
    rw [← hobject]
    exact (update_id w root).symm.trans (update_eq_put w root id)
  refine ⟨hbound, hmade, es, es, hobject, hput, fun _ => rfl, ?_, hnames, hnames'⟩
  exact List.forall₂_same.2 fun e he => ⟨.refl e.1, rfl, hes e he⟩

theorem agree (hw : w.Respelled root exposed all all' w') : w.Agree (.sparing root exposed) w' := by
  obtain ⟨es, es', hobject, rfl, hes⟩ := hw.record
  have hroot := object_update (fun _ => .record es') hw.bound
  refine ⟨fun ref href => ?_, fun ref => ?_, size_update w root _, rfl, hw.madeOf⟩
  · by_cases hne : ref = root
    · subst hne
      rw [hroot, hobject, hes.same (href rfl)]
    · exact object_update_ne w _ hne
  · by_cases hne : ref = root
    · subst hne
      rw [hroot, hobject]
      rfl
    · rw [object_update_ne w _ hne]

theorem put (hw : w.Respelled root exposed all all' w') (hes : EntriesRespelled root exposed all all' es es') :
    (w.update root fun _ => .record es).Respelled root exposed all all' (w'.update root fun _ => .record es') := by
  obtain ⟨-, es₀, -, rfl, -⟩ := hw.record
  have hroot := object_update (fun _ => .record es) hw.bound
  refine ⟨by rw [size_update]; exact hw.bound, fun ref href => ?_, es, es', hroot, ?_, hes⟩
  · by_cases hne : ref = root
    · subst hne
      rw [hroot]
      exact .record hes.madeOf
    · rw [object_update_ne w _ hne]
      exact hw.madeOf ref href
  · rw [update_update, update_update]
    rfl

theorem object' (hw : w.Respelled root exposed all all' w') : ∃ es es', w.object root = .record es ∧
    w'.object root = .record es' ∧ EntriesRespelled root exposed all all' es es' := by
  obtain ⟨es, es', hobject, rfl, hes⟩ := hw.record
  exact ⟨es, es', hobject, object_update _ hw.bound, hes⟩

end World.Respelled

structure HeadsRespelled (exposed : Prop) (all all' : List String) (n n' : String) : Prop where
  spelling : SameLetters n n'
  same : exposed → n' = n
  mem : n ∈ all
  mem' : n' ∈ all'

namespace HeadsRespelled

variable {n n' : String} {v : Value}

theorem set (hn : HeadsRespelled exposed all all' n n') (hall : Apart all) (hall' : Apart all')
    (hes : EntriesRespelled root exposed all all' es es') (hv : v.MadeOf (.sparing root exposed)) :
    EntriesRespelled root exposed all all' (es.set n v) (es'.set n' v) := by
  have hmem {t : Table Value} {names : List String} {m : String} (hm : m ∈ names) (ht : ∀ x ∈ t.names, x ∈ names) :
      ∀ x ∈ (t.set m v).names, x ∈ names := by
    intro x hx
    exact List.forall_mem_cons.2 ⟨hm, ht⟩ x (Table.mem_names_set hx)
  refine ⟨fun h => ?_, ?_, hmem hn.mem hes.names, hmem hn.mem' hes.names'⟩
  · rw [hn.same h, hes.same h]
  · refine hes.respelled.set hn.spelling ?_ ?_ ⟨rfl, hv⟩
    · exact fun m hm h => hall m (hes.names m hm) n hn.mem h
    · exact fun m hm h => hall' m (hes.names' m hm) n' hn.mem' h

theorem erase (hn : HeadsRespelled exposed all all' n n') (hall : Apart all) (hall' : Apart all')
    (hes : EntriesRespelled root exposed all all' es es') :
    EntriesRespelled root exposed all all' (es.erase n) (es'.erase n') := by
  have hmem {t : Table Value} {names : List String} (m : String) (ht : ∀ x ∈ t.names, x ∈ names) :
      ∀ x ∈ (t.erase m).names, x ∈ names := by
    unfold Table.erase
    rw [t.names_filter fun x => x != m]
    exact fun x hx => ht x (List.mem_filter.1 hx).1
  refine ⟨fun h => ?_, ?_, hmem n hes.names, hmem n' hes.names'⟩
  · rw [hn.same h, hes.same h]
  · refine hes.respelled.erase hn.spelling ?_ ?_
    · exact fun m hm h => hall m (hes.names m hm) n hn.mem h
    · exact fun m hm h => hall' m (hes.names' m hm) n' hn.mem' h

end HeadsRespelled

namespace Outlook

def number : Outlook where
  parts := .sparing 0 True
  world w w' := w' = w
  agree := by
    rintro w w' rfl
    exact .refl (w'.madeOf_exposed trivial)

def record (root : Nat) (exposed : Prop) (all all' : List String) : Outlook where
  parts := .sparing root exposed
  world := World.Respelled root exposed all all'
  agree := World.Respelled.agree

/-- A stage on which definitions under some heads stand for each other: they set or unset variables alike. -/
structure Play (o : Outlook) (h : Host) (exposed : Prop) (heads : String → String → Prop) extends
    o.Stage h Respelling exposed False where
  set : ∀ {w w' ref n n' v}, o.world w w' → context (.object ref) → heads n n' → v.MadeOf o.parts →
    o.world (w.setVariable ref n v) (w'.setVariable ref n' v)
  unset : ∀ {w w' ref n n'}, o.world w w' → context (.object ref) → heads n n' →
    o.world (w.unsetVariable ref n) (w'.unsetVariable ref n')

end Outlook

variable {h : Host} {heads : String → String → Prop}

theorem Host.discreet_number (h : Host) : h.Discreet .number := by
  have hlooks {f : World → Except Failure Value} :
      Looks Outlook.number.world (Value.MadeOf Outlook.number.parts) f f := by
    rintro w w' rfl
    exact ⟨rfl, fun v _ => v.madeOf_exposed trivial⟩
  have hacts {a : Act Value} : Acts Outlook.number.world (Value.MadeOf Outlook.number.parts) a := by
    rintro w w' rfl
    exact ⟨rfl, rfl, fun v _ => v.madeOf_exposed trivial⟩
  refine ⟨fun id => ⟨fun _ v _ => hlooks, fun _ => Value.madeOf_exposed trivial _, fun m _ v args _ _ => hacts⟩, ?_⟩
  exact fun ref args _ => hacts

namespace Outlook

/-- With an integer as the context, names mean something in the scope only. -/
def playNumber (h : Host) : Outlook.number.Play h True heads where
  context v := (∃ n k, v = .int n k) ∨ v = .null
  outside := .inr rfl
  named _ _ _ := Value.madeOf_exposed trivial _
  own hv _ := by
    obtain ⟨n, k, rfl⟩ | rfl := hv
    · rintro w w' rfl
      exact ⟨rfl, .ok nofun⟩
    · rintro w w' rfl
      refine ⟨rfl, .ok fun u hu => ?_⟩
      exact u.madeOf_exposed trivial
  entered := False.elim
  setVariable := False.elim
  unsetVariable := False.elim
  pragma := False.elim
  set _ hcontext _ _ := by
    obtain ⟨n, k, hv⟩ | hv := hcontext <;> cases hv
  unset _ hcontext _ := by
    obtain ⟨n, k, hv⟩ | hv := hcontext <;> cases hv

/-- With a record as the context, a name finds its entry, however the two are spelled. -/
def playRecord (h : Host) (root : Nat) (exposed : Prop) {all all' : List String} (hall : Apart all)
    (hall' : Apart all') :
    (Outlook.record root exposed all all').Play h exposed (HeadsRespelled exposed all all') where
  context v := v = .object root ∨ v = .null
  outside := .inr rfl
  named hexposed v hv := Value.madeOf_exposed hexposed v
  own := by
    rintro v cs n n' (rfl | rfl) ⟨rfl, hn⟩ w w' hw
    · obtain ⟨es, es', hobject, hobject', hes⟩ := hw.object'
      rw [Host.member_record hobject, Host.member_record hobject']
      have hfound := hes.respelled.lookup (hall.mono hes.names) (hall'.mono hes.names') hn
      obtain ⟨v, _, hv, hv', rfl, hmade⟩ | ⟨hv, hv'⟩ := rel_cases hfound <;> rw [hv, hv']
      · exact ⟨rfl, .ok fun u hu => by cases hu; exact hmade⟩
      · exact ⟨rfl, .ok fun u hu => by cases hu; exact .null⟩
    · exact ⟨rfl, .ok fun u hu => by cases hu; exact .null⟩
  entered := False.elim
  setVariable := False.elim
  unsetVariable := False.elim
  pragma := False.elim
  set := by
    rintro w w' ref n n' v hw (hroot | hroot) hn hv <;> cases hroot
    obtain ⟨es, es', hobject, hobject', hes⟩ := hw.object'
    rw [World.setVariable_record hobject, World.setVariable_record hobject']
    exact hw.put (hn.set hall hall' hes hv)
  unset := by
    rintro w w' ref n n' hw (hroot | hroot) hn <;> cases hroot
    obtain ⟨es, es', hobject, hobject', hes⟩ := hw.object'
    rw [World.unsetVariable_record hobject, World.unsetVariable_record hobject']
    exact hw.put (hn.erase hall hall' hes)

end Outlook

/-- Steps of text, names and definitions that differ at most in the case of names. -/
inductive Step.Respelled (k : Stock) (heads : String → String → Prop) : Step → Step → Prop
  | text (s : String) : Step.Respelled k heads (.text s) (.text s)
  | emit {c c' : Code} : Code.Twin k c c' → Step.Respelled k heads (.emit c) (.emit c')
  | setSlot (n : Nat) {c c' : Code} : Code.Twin k c c' → Step.Respelled k heads (.setSlot n c) (.setSlot n c')
  | setVariable (frame : Nat) {n n' : String} {c c' : Code} : heads n n' → Code.Twin k c c' →
    Step.Respelled k heads (.setVariable frame n c) (.setVariable frame n' c')
  | unsetVariable (frame : Nat) {n n' : String} : heads n n' →
    Step.Respelled k heads (.unsetVariable frame n) (.unsetVariable frame n')

namespace Outlook.Play

variable {o : Outlook} (st : o.Play h exposed heads) (hh : h.Discreet o)

theorem step {s s' : Step} (hs : Step.Respelled (o.respelling exposed) heads s s') :
    (st.toStage.agreement hh).Flows (fun _ => True) (s.run h) (s'.run h) := by
  have hcode {c c' : Code} (hc : Code.Twin (o.respelling exposed) c c') :=
    (st.toStage.agreement hh).code hc
  cases hs with
  | text s => exact .write s
  | emit hc =>
    refine (hcode hc).bind fun v hv => .reading fun e e' he => ?_
    rw [(st.toStage.agreement hh).display he.world hv]
    exact .write _
  | setSlot n hc => exact (hcode hc).bind fun v hv => .change fun e e' he => he.setSlot n hv
  | @setVariable frame n n' c c' hn hc =>
    refine (hcode hc).bind fun v hv => ?_
    exact .inFrame (f := fun w ref => w.setVariable ref n v) (g := fun w ref => w.setVariable ref n' v)
      fun w w' ref hw hcontext => st.set hw hcontext hn hv
  | @unsetVariable frame n n' hn =>
    exact .inFrame (A := st.toStage.agreement hh) (f := fun w ref => w.unsetVariable ref n)
      (g := fun w ref => w.unsetVariable ref n') fun w w' ref hw hcontext => st.unset hw hcontext hn

theorem steps {ss ss' : List Step}
    (hss : List.Forall₂ (Step.Respelled (o.respelling exposed) heads) ss ss') :
    (st.toStage.agreement hh).Flows (fun _ => True) (Step.runAll h ss) (Step.runAll h ss') := by
  induction hss with
  | nil => exact .value trivial
  | cons hs _ ih => exact (st.step hh hs).bind fun _ _ => ih

end Outlook.Play

end Stencil
