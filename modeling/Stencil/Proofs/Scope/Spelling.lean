import Stencil.Proofs.Scope.Alike
import Stencil.Proofs.Table
set_option autoImplicit false

namespace Stencil

def SameLetters (n n' : String) : Prop := sameName false n n' = true

instance (n n' : String) : Decidable (SameLetters n n') := inferInstanceAs (Decidable (_ = true))

namespace SameLetters

variable {a b d : String}

theorem refl (a : String) : SameLetters a a := sameName_refl false a

theorem symm (h : SameLetters a b) : SameLetters b a := sameName_symm h

theorem trans (hab : SameLetters a b) (hbd : SameLetters b d) : SameLetters a d := sameName_trans hab hbd

theorem congr (h : SameLetters a b) {x y : String} (hxy : SameLetters x y) :
    sameName false x a = sameName false y b := by
  rw [Bool.eq_iff_iff]
  exact ⟨fun hxa => hxy.symm.trans (SameLetters.trans hxa h), fun hyb => hxy.trans (SameLetters.trans hyb h.symm)⟩

/-- Names that are spelled as `a` and `b` are, where they are spellings of them, stand in the same places. -/
theorem place {x y : String} (hxy : SameLetters x y) (h : SameLetters a b) (hx : SameLetters x a → x = a)
    (hy : SameLetters y b → y = b) : x = a ↔ y = b := by
  constructor
  · rintro rfl
    exact hy (hxy.symm.trans h)
  · rintro rfl
    exact hx (hxy.trans h.symm)

end SameLetters

def Apart (names : List String) : Prop := ∀ a ∈ names, ∀ b ∈ names, SameLetters a b → a = b

instance (names : List String) : Decidable (Apart names) :=
  inferInstanceAs (Decidable (∀ a ∈ names, ∀ b ∈ names, SameLetters a b → a = b))

namespace Apart

variable {names : List String} {n : String}

theorem mono {more : List String} (h : Apart more) (hsub : ∀ a ∈ names, a ∈ more) : Apart names :=
  fun a ha b hb hab => h a (hsub a ha) b (hsub b hb) hab

theorem cons (h : Apart names) (hn : ∀ m ∈ names, SameLetters m n → m = n) : Apart (n :: names) := by
  intro a ha b hb hab
  rcases List.mem_cons.1 ha with rfl | ha'
  · rcases List.mem_cons.1 hb with rfl | hb'
    · rfl
    · exact (hn b hb' hab.symm).symm
  · rcases List.mem_cons.1 hb with rfl | hb'
    · exact hn a ha' hab
    · exact h a ha' b hb' hab

end Apart

namespace Table

variable {α β : Type} {V : α → β → Prop} {t : Table α} {t' : Table β} {n n' : String}

theorem mem_names {e : String × α} (he : e ∈ t.entries) : e.1 ∈ t.names := List.mem_map_of_mem he

theorem mem_names_set {m : String} {a : α} (hm : m ∈ (t.set n a).names) : m ∈ n :: t.names := by
  obtain ⟨e, he, rfl⟩ := List.mem_map.1 hm
  obtain he | rfl := Table.mem_set he
  · exact List.mem_cons_of_mem _ (mem_names he)
  · exact List.mem_cons_self

theorem names_filter (t : Table α) (p : String → Bool) :
    Table.names ⟨t.entries.filter fun e => p e.1⟩ = t.names.filter p := by
  simp [Table.names, List.filter_map, Function.comp_def]

/-- Where every name is spelled in one way, a lookup finds the first spelling. -/
theorem entry?_of_apart (h : Apart t.names) (name : String) :
    t.entry? false name = t.entries.find? fun e => sameName false e.1 name := by
  unfold entry?
  cases hexact : t.entries.find? fun e => e.1 == name with
  | none => rfl
  | some e =>
    have hname : e.1 = name := by simpa using List.find?_some hexact
    have hmem := mem_names (List.mem_of_find?_eq_some hexact)
    have hsame (x : String × α) (hx : x ∈ t.entries) : (x.1 == name) = sameName false x.1 name := by
      rw [Bool.eq_iff_iff, beq_iff_eq]
      constructor
      · rintro rfl
        exact sameName_refl false x.1
      · intro hxn
        rw [← hname] at hxn ⊢
        exact h x.1 (mem_names hx) e.1 hmem hxn
    dsimp only
    rw [← hexact, ← List.head?_filter, ← List.head?_filter, List.filter_congr hsame]

def Respelled (V : α → β → Prop) (t : Table α) (t' : Table β) : Prop :=
  List.Forall₂ (fun x y => SameLetters x.1 y.1 ∧ V x.2 y.2) t.entries t'.entries

namespace Respelled

theorem entry? (h : Respelled V t t') (ht : Apart t.names) (ht' : Apart t'.names) (hn : SameLetters n n') :
    Option.Rel (fun x y => SameLetters x.1 y.1 ∧ V x.2 y.2) (t.entry? false n) (t'.entry? false n') := by
  rw [entry?_of_apart ht, entry?_of_apart ht']
  exact find?_rel (fun x y hxy => hn.congr hxy.1) h

theorem lookup (h : Respelled V t t') (ht : Apart t.names) (ht' : Apart t'.names) (hn : SameLetters n n') :
    Option.Rel V (t.lookup false n) (t'.lookup false n') := by
  unfold Table.lookup
  obtain ⟨x, y, hx, hy, hxy⟩ | ⟨hx, hy⟩ := rel_cases (h.entry? ht ht' hn) <;> rw [hx, hy]
  · exact .some hxy.2
  · exact .none

/-- Spellings of a name are set in the same place, if each is spelled as the name is there. -/
theorem set (h : Respelled V t t') (hn : SameLetters n n') (ht : ∀ m ∈ t.names, SameLetters m n → m = n)
    (ht' : ∀ m ∈ t'.names, SameLetters m n' → m = n') {a : α} {b : β} (hab : V a b) :
    Respelled V (t.set n a) (t'.set n' b) := by
  obtain ⟨es⟩ := t
  obtain ⟨es'⟩ := t'
  unfold Respelled Table.set
  unfold Respelled at h
  dsimp only at h ⊢
  induction h with
  | nil => exact .cons ⟨hn, hab⟩ .nil
  | @cons x y es es' hxy hes ih =>
    simp only [Table.names, List.map_cons, List.forall_mem_cons] at ht ht' ih
    have hplace := hxy.1.place hn ht.1 ht'.1
    unfold setIn
    by_cases hx : x.1 = n
    · rw [if_pos hx, if_pos (hplace.1 hx)]
      exact .cons ⟨hn, hab⟩ hes
    · rw [if_neg hx, if_neg fun hy => hx (hplace.2 hy)]
      exact .cons hxy (ih ht.2 ht'.2)

theorem erase (h : Respelled V t t') (hn : SameLetters n n') (ht : ∀ m ∈ t.names, SameLetters m n → m = n)
    (ht' : ∀ m ∈ t'.names, SameLetters m n' → m = n') : Respelled V (t.erase n) (t'.erase n') := by
  obtain ⟨es⟩ := t
  obtain ⟨es'⟩ := t'
  unfold Respelled Table.erase
  unfold Respelled at h
  dsimp only at h ⊢
  induction h with
  | nil => exact .nil
  | @cons x y es es' hxy hes ih =>
    simp only [Table.names, List.map_cons, List.forall_mem_cons] at ht ht' ih
    have hplace := hxy.1.place hn ht.1 ht'.1
    by_cases hx : x.1 = n
    · rw [List.filter_cons_of_neg (by simpa using hx), List.filter_cons_of_neg (by simpa using hplace.1 hx)]
      exact ih ht.2 ht'.2
    · have hy : y.1 ≠ n' := fun hy => hx (hplace.2 hy)
      rw [List.filter_cons_of_pos (by simpa using hx), List.filter_cons_of_pos (by simpa using hy)]
      exact .cons hxy (ih ht.2 ht'.2)

end Respelled

end Table

end Stencil
