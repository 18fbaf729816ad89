import Stencil.Proofs.Code.Alike
import Stencil.Scope
set_option autoImplicit false

namespace Stencil

section Tables

variable {α β : Type} {R : α → β → Prop}

theorem find?_rel {p : α → Bool} {q : β → Bool} (hpq : ∀ a b, R a b → p a = q b) {as : List α} {bs : List β}
    (h : List.Forall₂ R as bs) : Option.Rel R (as.find? p) (bs.find? q) := by
  induction h with
  | nil => exact .none
  | @cons a b as bs hab _ ih =>
    rw [List.find?_cons, List.find?_cons, hpq a b hab]
    cases q b with
    | true => exact .some hab
    | false => exact ih

theorem getElem?_rel {as : List α} {bs : List β} (h : List.Forall₂ R as bs) (n : Nat) :
    Option.Rel R as[n]? bs[n]? := by
  induction h generalizing n with
  | nil => exact .none
  | cons hab _ ih =>
    cases n with
    | zero => exact .some hab
    | succ n => exact ih n

theorem rel_cases {x : Option α} {y : Option β} (h : Option.Rel R x y) :
    (∃ a b, x = some a ∧ y = some b ∧ R a b) ∨ (x = none ∧ y = none) := by
  cases h with
  | some hab => exact .inl ⟨_, _, rfl, rfl, hab⟩
  | none => exact .inr ⟨rfl, rfl⟩

theorem rel_imp {S : α → β → Prop} {x : Option α} {y : Option β} (h : Option.Rel R x y)
    (hRS : ∀ a b, R a b → S a b) : Option.Rel S x y := by
  cases h with
  | some hab => exact .some (hRS _ _ hab)
  | none => exact .none

theorem rel_map {f : α → β} (hf : ∀ a, R a (f a)) (x : Option α) : Option.Rel R x (x.map f) := by
  cases x with
  | some a => exact .some (hf a)
  | none => exact .none

/-- Tables of the same names, in the same order, for related things. -/
def Table.Alike (R : α → β → Prop) (t : Table α) (t' : Table β) : Prop :=
  List.Forall₂ (fun e e' => e.1 = e'.1 ∧ R e.2 e'.2) t.entries t'.entries

namespace Table.Alike

variable {t : Table α} {t' : Table β}

theorem entry? (h : Table.Alike R t t') (cs : Bool) (name : String) :
    Option.Rel (fun e e' => e.1 = e'.1 ∧ R e.2 e'.2) (t.entry? cs name) (t'.entry? cs name) := by
  have hfind (p : String → Bool) : Option.Rel (fun e e' => e.1 = e'.1 ∧ R e.2 e'.2)
      (t.entries.find? fun e => p e.1) (t'.entries.find? fun e => p e.1) :=
    find?_rel (fun _ _ he => by rw [he.1]) h
  unfold Table.entry?
  obtain ⟨e, e', hx, hy, he⟩ | ⟨hx, hy⟩ := rel_cases (hfind (· == name)) <;> rw [hx, hy]
  · exact .some he
  · cases cs with
    | true => exact .none
    | false => exact hfind (Text.sameIgnoringCase · name)

theorem lookup (h : Table.Alike R t t') (cs : Bool) (name : String) :
    Option.Rel R (t.lookup cs name) (t'.lookup cs name) := by
  unfold Table.lookup
  obtain ⟨e, e', hx, hy, he⟩ | ⟨hx, hy⟩ := rel_cases (h.entry? cs name) <;> rw [hx, hy]
  · exact .some he.2
  · exact .none

theorem set (h : Table.Alike R t t') (name : String) {a : α} {b : β} (hab : R a b) :
    Table.Alike R (t.set name a) (t'.set name b) := by
  unfold Table.Alike at h
  unfold Table.Alike Table.set
  revert h
  generalize t.entries = es
  generalize t'.entries = es'
  intro h
  induction h with
  | nil => exact .cons ⟨rfl, hab⟩ .nil
  | @cons e e' es es' he hes ih =>
    unfold Table.setIn
    rw [← he.1]
    split
    · exact .cons ⟨rfl, hab⟩ hes
    · exact .cons he ih

theorem erase (h : Table.Alike R t t') (name : String) : Table.Alike R (t.erase name) (t'.erase name) :=
  List.rel_filter (fun _ _ he => by simp only [he.1]) h

end Table.Alike

end Tables

variable (l : Likeness) (σ : List SlotUse)

inductive Binding.Alike : Binding → Binding → Prop
  | slot {n : Nat} (k : Kind) (o : Origin) : σ[n]? = some .value → Binding.Alike (.slot n k o) (.slot n k o)
  | ofVariable (frame : Nat) (name : String) (k : Kind) :
    Binding.Alike (.variable frame name k) (.variable frame name k)
  | fragment {f : Fragment} {m : Nat} {compute emit : Body} :
    (∀ p ∈ f.params, σ[p]? = some .value) → σ[f.snapshot]? = some (.contexts m) →
    Step.AlikeAll l σ (m + 1) f.compute compute → Step.AlikeAll l σ (m + 1) f.emit emit →
    Binding.Alike (.fragment f) (.fragment { f with compute, emit })
  | hidden : Binding.Alike .hidden .hidden

structure Frame.Alike (f f' : Frame) : Prop where
  context : f'.context = f.context
  binder : f'.binder = f.binder
  bindings : Table.Alike (Binding.Alike l σ) f.bindings f'.bindings

structure Scope.Alike (s s' : Scope) : Prop where
  inner : List.Forall₂ (Frame.Alike l σ) s.inner s'.inner
  root : Frame.Alike l σ s.root s'.root
  slots : s.slots = σ.length
  slots' : s'.slots = σ.length

variable {l σ} {l' : Likeness} {σ' : List SlotUse}

theorem Binding.Alike.mono (hl : l.Within l') (hσ : σ <+: σ') {b b' : Binding} (h : Binding.Alike l σ b b') :
    Binding.Alike l' σ' b b' := by
  cases h with
  | slot k o hn => exact .slot k o (SlotUse.getElem?_of_prefix hσ hn)
  | ofVariable frame name k => exact .ofVariable frame name k
  | fragment hparams hsnapshot hcompute hemit =>
    exact .fragment (fun p hp => SlotUse.getElem?_of_prefix hσ (hparams p hp))
      (SlotUse.getElem?_of_prefix hσ hsnapshot) (hcompute.mono hl hσ) (hemit.mono hl hσ)
  | hidden => exact .hidden

theorem Binding.Alike.isLet {b b' : Binding} (h : Binding.Alike l σ b b') : b'.isLet = b.isLet := by
  cases h <;> rfl

namespace Frame.Alike

variable {f f' : Frame}

theorem mono (hl : l.Within l') (hσ : σ <+: σ') (h : Frame.Alike l σ f f') : Frame.Alike l' σ' f f' where
  context := h.context
  binder := h.binder
  bindings := h.bindings.imp fun _ _ he => ⟨he.1, he.2.mono hl hσ⟩

theorem open_ (context : Kind) (binder : BinderKind) :
    Frame.Alike l σ (.open_ context binder) (.open_ context binder) :=
  ⟨rfl, rfl, .nil⟩

theorem find? (h : Frame.Alike l σ f f') (cs : Bool) (name : String) :
    Option.Rel (Binding.Alike l σ) (f.find? cs name) (f'.find? cs name) :=
  h.bindings.lookup cs name

theorem meaning? (h : Frame.Alike l σ f f') (host : Host) (w : World) (cs : Bool) (name : String) (i : Nat) :
    Option.Rel (Binding.Alike l σ) (Scope.meaning? host w cs name i f)
      (Scope.meaning? host w cs name i f') := by
  unfold Scope.meaning?
  rw [h.binder, h.context]
  obtain ⟨b, b', hx, hy, hb⟩ | ⟨hx, hy⟩ := rel_cases (h.find? cs name) <;> rw [hx, hy]
  · exact .some hb
  · dsimp only
    split
    · cases host.variableKind? w cs name f.context with
      | none => exact .none
      | some k => exact .some (.ofVariable i name k)
    · exact .none

theorem takesDefinitions (h : Frame.Alike l σ f f') : f'.takesDefinitions = f.takesDefinitions := by
  unfold Frame.takesDefinitions
  rw [h.binder]

theorem isLet (h : Frame.Alike l σ f f') (cs : Bool) (name : String) :
    (f'.find? cs name).any Binding.isLet = (f.find? cs name).any Binding.isLet := by
  obtain ⟨b, b', hx, hy, hb⟩ | ⟨hx, hy⟩ := rel_cases (h.find? cs name) <;> rw [hx, hy]
  exact hb.isLet

end Frame.Alike

/-- What a lookup finds in alike frames: alike bindings of the same frame. -/
def Found (l : Likeness) (σ : List SlotUse) : Option (Nat × Binding) → Option (Nat × Binding) → Prop :=
  Option.Rel fun x y => x.1 = y.1 ∧ Binding.Alike l σ x.2 y.2

theorem lookupIn_alike (host : Host) (w : World) (cs : Bool) (name : String) {fs fs' : List Frame}
    (h : List.Forall₂ (Frame.Alike l σ) fs fs') :
    Found l σ (Scope.lookupIn host w cs name fs) (Scope.lookupIn host w cs name fs') := by
  induction h with
  | nil => exact .none
  | @cons f f' fs fs' hf hfs ih =>
    unfold Scope.lookupIn
    rw [← hfs.length_eq]
    obtain ⟨b, b', hx, hy, hb⟩ | ⟨hx, hy⟩ := rel_cases (hf.meaning? host w cs name fs.length) <;> rw [hx, hy]
    · exact .some ⟨rfl, hb⟩
    · exact ih

theorem findFrame?_alike {p : Frame → Bool} (hp : ∀ f f', Frame.Alike l σ f f' → p f' = p f)
    {fs fs' : List Frame} (h : List.Forall₂ (Frame.Alike l σ) fs fs') :
    Scope.findFrame? p fs' = Scope.findFrame? p fs := by
  induction h with
  | nil => rfl
  | @cons f f' fs fs' hf hfs ih => rw [Scope.findFrame?, Scope.findFrame?, hp f f' hf, ih, hfs.length_eq]

theorem modifyInner_alike {i : Nat} {g g' : Frame → Frame}
    (hg : ∀ f f', Frame.Alike l σ f f' → Frame.Alike l σ (g f) (g' f')) {fs fs' : List Frame}
    (h : List.Forall₂ (Frame.Alike l σ) fs fs') :
    List.Forall₂ (Frame.Alike l σ) (Scope.modifyInner i g fs) (Scope.modifyInner i g' fs') := by
  induction h with
  | nil => exact .nil
  | @cons f f' fs fs' hf hfs ih =>
    unfold Scope.modifyInner
    rw [← hfs.length_eq]
    split
    · exact .cons (hg f f' hf) hfs
    · exact .cons hf ih

namespace Scope

namespace Alike

variable {s s' : Scope}

theorem mono (hl : l.Within l') (h : Scope.Alike l σ s s') : Scope.Alike l' σ s s' where
  inner := h.inner.imp fun _ _ hf => hf.mono hl (List.prefix_refl σ)
  root := h.root.mono hl (List.prefix_refl σ)
  slots := h.slots
  slots' := h.slots'

theorem frames (h : Scope.Alike l σ s s') : List.Forall₂ (Frame.Alike l σ) s.frames s'.frames :=
  List.rel_append h.inner (.cons h.root .nil)

theorem depth (h : Scope.Alike l σ s s') : s'.depth = s.depth := by
  unfold Scope.depth
  rw [h.inner.length_eq]

theorem current (h : Scope.Alike l σ s s') : Frame.Alike l σ s.current s'.current := by
  have hinner := h.inner
  unfold Scope.current
  revert hinner
  generalize s.inner = fs
  generalize s'.inner = fs'
  rintro (_ | ⟨hf, _⟩)
  · exact h.root
  · exact hf

theorem lookup (h : Scope.Alike l σ s s') (host : Host) (w : World) (cs : Bool) (name : String) :
    Found l σ (s.lookup host w cs name) (s'.lookup host w cs name) :=
  lookupIn_alike host w cs name h.frames

theorem context? (h : Scope.Alike l σ s s') (n : Nat) : s'.context? n = s.context? n := by
  unfold Scope.context?
  obtain ⟨f, f', hx, hy, hf⟩ | ⟨hx, hy⟩ := rel_cases (getElem?_rel h.frames n) <;> rw [hx, hy]
  exact congrArg some hf.context

theorem frame? (h : Scope.Alike l σ s s') (i : Nat) :
    Option.Rel (Frame.Alike l σ) (s.frame? i) (s'.frame? i) :=
  getElem?_rel (List.rel_reverse h.frames) i

theorem binder? (h : Scope.Alike l σ s s') (i : Nat) : s'.binder? i = s.binder? i := by
  unfold Scope.binder?
  obtain ⟨f, f', hx, hy, hf⟩ | ⟨hx, hy⟩ := rel_cases (h.frame? i) <;> rw [hx, hy]
  exact congrArg some hf.binder

theorem letOwner? (h : Scope.Alike l σ s s') (cs : Bool) (name : String) :
    s'.letOwner? cs name = s.letOwner? cs name :=
  findFrame?_alike (fun _ _ hf => hf.isLet cs name) h.frames

theorem declarationFrame (h : Scope.Alike l σ s s') : s'.declarationFrame = s.declarationFrame :=
  congrArg (Option.getD · 0) (findFrame?_alike (fun _ _ hf => hf.takesDefinitions) h.frames)

theorem push (h : Scope.Alike l σ s s') (context : Kind) (binder : BinderKind) :
    Scope.Alike l σ (s.push context binder) (s'.push context binder) :=
  ⟨.cons (.open_ context binder) h.inner, h.root, h.slots, h.slots'⟩

theorem pop (h : Scope.Alike l σ s s') : Scope.Alike l σ s.pop s'.pop :=
  ⟨List.forall₂_drop 1 h.inner, h.root, h.slots, h.slots'⟩

theorem allocate (h : Scope.Alike l σ s s') (u : SlotUse) :
    Scope.Alike l (σ ++ [u]) s.allocate.2 s'.allocate.2 where
  inner := h.inner.imp fun _ _ hf => hf.mono (.refl l) (List.prefix_append σ [u])
  root := h.root.mono (.refl l) (List.prefix_append σ [u])
  slots := by rw [List.length_append, ← h.slots]; rfl
  slots' := by rw [List.length_append, ← h.slots']; rfl

theorem modifyFrame (h : Scope.Alike l σ s s') (i : Nat) {g g' : Frame → Frame}
    (hg : ∀ f f', Frame.Alike l σ f f' → Frame.Alike l σ (g f) (g' f')) :
    Scope.Alike l σ (s.modifyFrame i g) (s'.modifyFrame i g') := by
  unfold Scope.modifyFrame
  split
  · exact ⟨h.inner, hg _ _ h.root, h.slots, h.slots'⟩
  · exact ⟨modifyInner_alike hg h.inner, h.root, h.slots, h.slots'⟩

theorem declare (h : Scope.Alike l σ s s') (i : Nat) (name : String) {b b' : Binding}
    (hb : Binding.Alike l σ b b') : Scope.Alike l σ (s.declare i name b) (s'.declare i name b') :=
  h.modifyFrame i fun _ _ hf => ⟨hf.context, hf.binder, hf.bindings.set name hb⟩

theorem boundAs? (h : Scope.Alike l σ s s') (i : Nat) (cs : Bool) (name : String) :
    Option.Rel (fun e e' => e.1 = e'.1 ∧ Binding.Alike l σ e.2 e'.2) (s.boundAs? i cs name)
      (s'.boundAs? i cs name) := by
  unfold Scope.boundAs?
  obtain ⟨f, f', hx, hy, hf⟩ | ⟨hx, hy⟩ := rel_cases (h.frame? i) <;> rw [hx, hy]
  · exact hf.bindings.entry? cs name
  · exact .none

theorem remove (h : Scope.Alike l σ s s') (i : Nat) (cs : Bool) (name : String) :
    Scope.Alike l σ (s.remove i cs name) (s'.remove i cs name) := by
  unfold Scope.remove
  obtain ⟨⟨key, b⟩, ⟨key', b'⟩, hx, hy, rfl, -⟩ | ⟨hx, hy⟩ := rel_cases (h.boundAs? i cs name) <;> rw [hx, hy]
  · exact h.modifyFrame i fun _ _ hf => ⟨hf.context, hf.binder, hf.bindings.erase _⟩
  · exact h

end Alike

end Scope

end Stencil
