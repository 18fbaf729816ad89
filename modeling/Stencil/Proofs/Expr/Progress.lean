import Stencil.Proofs.Expr.Rebase
/-!
The readers take tokens or fail, and they end. A reader calls readers on fewer tokens, or on the same tokens for a
level of lower rank, and a loop makes its next turn on fewer tokens. So what calls nested deeper than the tokens allow
would answer never matters.
-/
set_option autoImplicit false

namespace Stencil

/-- A function that a step tells from its answers at smaller sizes. What it would answer elsewhere does not matter, nor
does what calls would answer that are nested deeper than the size. -/
structure Progressive {σ β : Type} (size : σ → Nat) (step : (σ → β) → σ → β) (f : σ → β) : Prop where
  calls : ∀ next s, (∀ s', size s' < size s → next s' = f s') → step next s = f s
  ends : ∀ beyond n s, size s < n → Nat.repeat step n beyond s = f s

theorem Progressive.of_calls {σ β : Type} {size : σ → Nat} {step : (σ → β) → σ → β} {f : σ → β}
    (h : ∀ next s, (∀ s', size s' < size s → next s' = f s') → step next s = f s) : Progressive size step f := by
  refine ⟨h, fun beyond n => ?_⟩
  induction n with
  | zero => exact fun _ hlt => absurd hlt (Nat.not_lt_zero _)
  | succ n ih => exact fun s hlt => h _ s fun s' hs' => ih s' (by omega)

namespace Expr

variable {α : Type} {stop : Nat} {ts rest : List Placed} {x : Except SyntaxError (α × List Placed)}

def Located (stop : Nat) (ts : List Placed) (s : Span) : Prop :=
  s = .point stop ∨ ∃ row, row <:+: ts ∧ Placed.Covers row s

/-- A reading that takes at least `n` tokens off the front, or finds fault with a place among the tokens. -/
def Advances (n stop : Nat) (ts : List Placed) : Except SyntaxError (α × List Placed) → Prop
  | .ok (_, rest) => ∃ taken, ts = taken ++ rest ∧ n ≤ taken.length
  | .error e => Located stop ts e.span

theorem sites_located (stop : Nat) (ts : List Placed) : Placed.Sites (Located stop ts) stop ts :=
  ⟨.inl rfl, fun hm hc => .inr ⟨_, hm, hc⟩⟩

theorem Sited.advances {k : Nat} {f : α → α} {Q : α → Prop} {y : Except SyntaxError (α × List Placed)}
    (h : Sited k (Located stop ts) f Q ts x y) : Advances 1 stop ts x := by
  cases h with
  | ok _ hleft =>
    obtain ⟨⟨taken, rfl⟩, hlt⟩ := hleft.1
    rw [List.length_append] at hlt
    exact ⟨taken, rfl, by omega⟩
  | error he => exact he

theorem Reread.eq {P : Span → Prop} {f : α → α} {Q : α → List Placed → Prop} {y : Except SyntaxError (α × List Placed)}
    (h : Reread 0 P f Q x y) (hf : ∀ a, f a = a) : y = x := by
  cases h with
  | @ok _ _ rest hb =>
    rw [hb, hf, show rest.map (Placed.shift 0) = rest from List.map_id rest]
  | error => rfl

theorem bind_congr_left {β : Type} {f g : α × List Placed → Except SyntaxError β} (hx : Advances 1 stop ts x)
    (h : ∀ a rest, rest.length < ts.length → f (a, rest) = g (a, rest)) : x >>= f = x >>= g := by
  cases x with
  | error e => rfl
  | ok p =>
    obtain ⟨taken, rfl, hle⟩ := hx
    exact h p.1 p.2 (by rw [List.length_append]; omega)

namespace Level

theorem advances_read (stop : Nat) (l : Level) (ts : List Placed) : Advances l.least stop ts (read stop l ts) := by
  have h := reads 0 (Located stop ts) stop l ts (sites_located stop ts).marks
  cases hr : read stop l ts with
  | error e =>
    rw [hr] at h
    exact h.fails e rfl
  | ok p =>
    obtain ⟨mid, rfl, -⟩ := h.reads hr
    have hle := length_rest_le stop hr
    rw [List.length_append] at hle
    exact ⟨mid, rfl, by omega⟩

theorem shift_zero (l : Level) : l.shift 0 = l := by
  cases l <;> simp [shift, Expr.shift_zero]

theorem step_congr {next : Level → List Placed → Outcome} {l : Level}
    (h : ∀ l' ts', weight l' ts' < weight l ts → next l' ts' = read stop l' ts') :
    step next stop l ts = read stop l ts := by
  have hshift (ts : List Placed) : ts.map (Placed.shift 0) = ts := List.map_id ts
  -- Not shifted at all, `next` answers as the reader on all that a step reads on with; so the step does too.
  have hbelow : Below 0 (fun _ => True) stop next l ts := by
    intro l' ts' hlt hm
    have hread := reads 0 _ stop l' ts' hm
    rw [shift_zero, hshift] at hread ⊢
    rwa [h l' ts' hlt]
  have hstep := (reads_step l ts hbelow ⟨trivial, fun _ _ => trivial⟩).eq Expr.shift_zero
  rwa [shift_zero, hshift] at hstep

end Level

end Expr

namespace Arguments

open Stencil.Expr (bind_congr_left sites_located)

theorem progressive_bindings (stop : Nat) :
    Progressive List.length (fun next ts => bindingsStep stop ts next) (takeBindings stop) := by
  refine .of_calls fun next ts h => ?_
  rw [takeBindings_eq]
  refine bind_congr_left (sited_takeName (k := 0) (sites_located stop ts)).advances fun name rest hlt => ?_
  refine bind_congr_left (Expr.Sited.take (k := 0) .eq (sites_located stop rest)).advances fun _ rest₁ hlt₁ => ?_
  refine bind_congr_left (sited_takeExpr (k := 0) (sites_located stop rest₁)).advances fun value rest₂ hlt₂ => ?_
  dsimp only
  split
  · rw [h _ (by rw [List.length_tail]; omega)]
  · rfl

theorem progressive_parameters (stop : Nat) :
    Progressive List.length (fun next ts => parametersStep stop ts next) (takeParameters stop) := by
  refine .of_calls fun next ts h => ?_
  rw [takeParameters_eq]
  unfold parametersStep
  split
  · rfl
  refine bind_congr_left (sited_takeName (k := 0) (sites_located stop ts)).advances fun name rest hlt => ?_
  dsimp only
  split
  · rfl
  refine bind_congr_left (Expr.Sited.take (k := 0) .comma (sites_located stop rest)).advances fun _ rest₁ hlt₁ => ?_
  dsimp only
  rw [h _ (by omega)]

theorem progressive_segments (stop : Nat) :
    Progressive List.length (fun next ts => segmentsStep stop ts next) (takeSegments stop) := by
  refine .of_calls fun next ts h => ?_
  rw [takeSegments_eq]
  unfold segmentsStep
  split
  · next n span rest =>
    rw [h _ (by rw [List.length_cons, List.length_tail]; omega)]
  · rfl

end Arguments

open Stencil.Expr (Level Advances sites_located) in
/-- The readers of expressions and of directive arguments take tokens off the front or find fault with a place among
them; those that start afresh take at least one. Each calls readers only on fewer tokens, or on the same ones at a
lower rank, its own next turn among them; so whatever the tokens are, every reader ends with a result or an error. -/
theorem readers_advance_and_end (stop : Nat) :
    (∀ l ts, Advances l.least stop ts (Level.read stop l ts)) ∧
    (∀ ts, Advances 1 stop ts (Arguments.takeBindings stop ts) ∧ Advances 1 stop ts (Arguments.takeParameters stop ts) ∧
      Advances 1 stop ts (Arguments.takeHead stop ts) ∧ Advances 1 stop ts (Arguments.takeAssertion stop ts) ∧
      Advances 1 stop ts (Arguments.takeSegments stop ts)) ∧
    Progressive (fun s => Level.weight s.1 s.2) (fun next s => Level.step (fun l ts => next (l, ts)) stop s.1 s.2)
      (fun s => Level.read stop s.1 s.2) ∧
    Progressive List.length (fun next ts => Arguments.bindingsStep stop ts next) (Arguments.takeBindings stop) ∧
    Progressive List.length (fun next ts => Arguments.parametersStep stop ts next) (Arguments.takeParameters stop) ∧
    Progressive List.length (fun next ts => Arguments.segmentsStep stop ts next) (Arguments.takeSegments stop) := by
  refine ⟨Level.advances_read stop, fun ts => ?_, .of_calls fun next s h => Level.step_congr fun l ts => h (l, ts),
    Arguments.progressive_bindings stop, Arguments.progressive_parameters stop, Arguments.progressive_segments stop⟩
  have hs := sites_located stop ts
  exact ⟨(Arguments.sited_takeBindings (k := 0) hs).advances, (Arguments.sited_takeParameters (k := 0) hs).advances,
    (Arguments.sited_takeHead (k := 0) hs).advances, (Arguments.sited_takeAssertion (k := 0) hs).advances,
    (Arguments.sited_takeSegments (k := 0) hs).advances⟩

end Stencil
