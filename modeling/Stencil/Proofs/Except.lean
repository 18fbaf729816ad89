set_option autoImplicit false

namespace Stencil

variable {ε α β : Type}

theorem exists_of_map_ok {f : α → β} {x : Except ε α} {b : β} (h : x.map f = .ok b) :
    ∃ a, x = .ok a ∧ f a = b := by
  cases x with
  | error e => cases h
  | ok a => cases h; exact ⟨a, rfl, rfl⟩

theorem exists_of_bind_ok {x : Except ε α} {f : α → Except ε β} {b : β} (h : x >>= f = .ok b) :
    ∃ a, x = .ok a ∧ f a = .ok b := by
  cases x with
  | error e => cases h
  | ok a => exact ⟨a, rfl, h⟩

theorem ok_of_toOption {x : Except ε α} {a : α} (h : x.toOption = some a) : x = .ok a := by
  cases x with
  | error e => cases h
  | ok b => cases h; rfl

theorem exists_of_mapM_ok {f : α → Except ε β} {as : List α} {bs : List β} (h : as.mapM f = .ok bs) :
    ∀ b ∈ bs, ∃ a ∈ as, f a = .ok b := by
  induction as generalizing bs with
  | nil =>
    rw [List.mapM_nil] at h
    cases h
    simp
  | cons a as ih =>
    rw [List.mapM_cons] at h
    obtain ⟨b, hb, h⟩ := exists_of_bind_ok h
    obtain ⟨cs, hcs, h⟩ := exists_of_bind_ok h
    cases h
    intro c hc
    rcases List.mem_cons.1 hc with rfl | hc
    · exact ⟨a, by simp, hb⟩
    · obtain ⟨x, hx, hf⟩ := ih hcs c hc
      exact ⟨x, by simp [hx], hf⟩

/-- A computation that gives only what satisfies a condition, where it gives anything. -/
def Ensures (P : α → Prop) (x : Except ε α) : Prop := ∀ a, x = .ok a → P a

namespace Ensures

variable {P : α → Prop} {Q : β → Prop}

theorem ok {a : α} (h : P a) : Ensures P (.ok a : Except ε α) := by
  rintro _ ⟨⟩
  exact h

theorem error {e : ε} : Ensures P (.error e) := nofun

theorem bind {x : Except ε β} {f : β → Except ε α} (hx : Ensures Q x) (hf : ∀ b, Q b → Ensures P (f b)) :
    Ensures P (x >>= f) := by
  intro a ha
  obtain ⟨b, hb, ha⟩ := exists_of_bind_ok ha
  exact hf b (hx b hb) a ha

theorem bind_any {x : Except ε β} {f : β → Except ε α} (hf : ∀ b, Ensures P (f b)) : Ensures P (x >>= f) := by
  intro a ha
  obtain ⟨b, -, ha⟩ := exists_of_bind_ok ha
  exact hf b a ha

end Ensures

/-- A computation that fails only with what satisfies a condition. -/
def FailsOnly (P : ε → Prop) (x : Except ε α) : Prop := ∀ e, x = .error e → P e

namespace FailsOnly

variable {P : ε → Prop}

theorem ok {a : α} : FailsOnly P (.ok a) := by
  rintro _ ⟨⟩

theorem error {e : ε} (h : P e) : FailsOnly P (.error e : Except ε α) := by
  rintro _ ⟨⟩
  exact h

theorem bind {x : Except ε β} {f : β → Except ε α} (hx : FailsOnly P x) (hf : ∀ b, x = .ok b → FailsOnly P (f b)) :
    FailsOnly P (x >>= f) := by
  cases x with
  | error e => exact .error (hx e rfl)
  | ok b => exact hf b rfl

theorem bind_read {γ : Type} {x : Except ε (β × γ)} {f : β × γ → Except ε α} (hx : FailsOnly P x)
    (hf : ∀ b rest, x = .ok (b, rest) → FailsOnly P (f (b, rest))) : FailsOnly P (x >>= f) :=
  hx.bind fun r hr => hf r.1 r.2 hr

theorem map {x : Except ε β} {f : β → α} (hx : FailsOnly P x) : FailsOnly P (x.map f) := by
  cases x with
  | error e => exact .error (hx e rfl)
  | ok b => exact .ok

end FailsOnly

/-- Where the first computation gives something, the second gives something related to it. -/
def Tracks {α' : Type} (R : α → α' → Prop) (x : Except ε α) (y : Except ε α') : Prop :=
  ∀ a, x = .ok a → ∃ b, y = .ok b ∧ R a b

namespace Tracks

variable {α' : Type} {R : α → α' → Prop}

theorem ok {a : α} {b : α'} (h : R a b) : Tracks R (.ok a : Except ε α) (.ok b) := by
  rintro _ ⟨⟩
  exact ⟨b, rfl, h⟩

theorem error {e : ε} {y : Except ε α'} : Tracks R (.error e) y := nofun

end Tracks

/-- Where the first computation gives something, the second gives its image. -/
abbrev Carries {α' : Type} (f : α → α') (x : Except ε α) (y : Except ε α') : Prop := Tracks (fun a b => b = f a) x y

/-- Two computations of which both give something, related, or both fail. -/
inductive Paired {α' : Type} (R : α → α' → Prop) : Except ε α → Except ε α' → Prop
  | ok {a : α} {b : α'} : R a b → Paired R (.ok a) (.ok b)
  | error {e e' : ε} : Paired R (.error e) (.error e')

namespace Paired

variable {α' β' : Type} {R : α → α' → Prop} {S : β → β' → Prop}

theorem bind {x : Except ε α} {y : Except ε α'} {f : α → Except ε β} {g : α' → Except ε β'}
    (hx : Paired R x y) (hf : ∀ a b, R a b → Paired S (f a) (g b)) : Paired S (x >>= f) (y >>= g) := by
  cases hx with
  | ok hab => exact hf _ _ hab
  | error => exact .error

end Paired

/-- Two computations that give something related, or of which the first fails with what satisfies a condition. Then
the second fails too, unless it is `eased`. -/
inductive Meets (A : ε → Prop) (eased : Prop) {α' : Type} (R : α → α' → Prop) : Except ε α → Except ε α' → Prop
  | ok {a : α} {b : α'} : R a b → Meets A eased R (.ok a) (.ok b)
  | error {e e' : ε} : A e → Meets A eased R (.error e) (.error e')
  | eased {e : ε} {b : α'} : A e → eased → Meets A eased R (.error e) (.ok b)

namespace Meets

variable {A : ε → Prop} {eased : Prop} {α' β' : Type} {R : α → α' → Prop} {S : β → β' → Prop} {x : Except ε α}
  {y : Except ε α'}

/-- Where the first computation fails and the second is eased, the second may do anything. -/
theorem of_error {e : ε} (he : A e) (h : eased) : Meets A eased R (.error e) y := by
  cases y with
  | error => exact .error he
  | ok => exact .eased he h

theorem bind {f : α → Except ε β} {g : α' → Except ε β'} (hx : Meets A eased R x y)
    (hf : ∀ a b, R a b → Meets A eased S (f a) (g b)) : Meets A eased S (x >>= f) (y >>= g) := by
  cases hx with
  | ok hab => exact hf _ _ hab
  | error he => exact .error he
  | eased he h => exact of_error he h

theorem map {f : α → β} {g : α' → β'} (hx : Meets A eased R x y) (hf : ∀ a b, R a b → S (f a) (g b)) :
    Meets A eased S (x.map f) (y.map g) := by
  cases hx with
  | ok hab => exact .ok (hf _ _ hab)
  | error he => exact .error he
  | eased he h => exact .eased he h

theorem imp {R' : α → α' → Prop} (hx : Meets A eased R x y) (h : ∀ a b, R a b → R' a b) : Meets A eased R' x y := by
  cases hx with
  | ok hab => exact .ok (h _ _ hab)
  | error he => exact .error he
  | eased he h => exact .eased he h

theorem tracks (hx : Meets A eased R x y) : Tracks R x y := by
  rintro a rfl
  cases hx with
  | ok hab => exact ⟨_, rfl, hab⟩

theorem failsOnly (hx : Meets A eased R x y) : FailsOnly A x := by
  cases hx with
  | ok => exact .ok
  | error he => exact .error he
  | eased he => exact .error he

theorem paired (hx : Meets A False R x y) : Paired R x y := by
  cases hx with
  | ok hab => exact .ok hab
  | error => exact .error
  | eased _ h => exact h.elim

end Meets

theorem Tracks.meets {A : ε → Prop} {α' : Type} {R : α → α' → Prop} {x : Except ε α} {y : Except ε α'}
    (h : Tracks R x y) (hA : FailsOnly A x) : Meets A True R x y := by
  cases x with
  | ok a =>
    obtain ⟨b, rfl, hab⟩ := h a rfl
    exact .ok hab
  | error e => exact .of_error (hA e rfl) trivial

theorem FailsOnly.meets {A : ε → Prop} {eased : Prop} {R : α → α → Prop} {x : Except ε α} (h : FailsOnly A x)
    (hR : ∀ a, R a a) : Meets A eased R x x := by
  cases x with
  | ok a => exact .ok (hR a)
  | error e => exact .error (h e rfl)

theorem Paired.meets {eased : Prop} {α' : Type} {R : α → α' → Prop} {x : Except ε α} {y : Except ε α'}
    (h : Paired R x y) : Meets (fun _ => True) eased R x y := by
  cases h with
  | ok hab => exact .ok hab
  | error => exact .error trivial

end Stencil
