import Stencil.Engine
import Stencil.Proofs.Text.Cut
/-!
Rendering until a text is stable. The passes that were made say how rendering ends: quietly once the text
is finished, with a fault of its own when all passes allowed were made and the text is not, and else with
the fault of a pass.
-/
set_option autoImplicit false

namespace Stencil

variable {σ ε : Type}

def textAfter (text : String) (rs : List PassText) : String := (rs.getLast?.map (·.text)).getD text

@[simp] theorem textAfter_append (text : String) (rs : List PassText) (r : PassText) :
    textAfter text (rs ++ [r]) = r.text := by simp [textAfter]

/-- Successful passes in a row, each over the text of the one before it. -/
inductive Passes (pass : String → σ → Except ε PassText × σ) (text : String) (s : σ) :
    List PassText → σ → Prop where
  | none : Passes pass text s [] s
  | more {rs : List PassText} {r : PassText} {s' s'' : σ} : Passes pass text s rs s' →
    pass (textAfter text rs) s' = (.ok r, s'') → Passes pass text s (rs ++ [r]) s''

def Asked (rs : List PassText) (n : Nat) : Prop := ∃ r ∈ rs, ∃ m, r.pass.passCap = some m ∧ m ≤ n

theorem asked_append {rs : List PassText} {r : PassText} {n : Nat} :
    Asked (rs ++ [r]) n ↔ Asked rs n ∨ ∃ m, r.pass.passCap = some m ∧ m ≤ n := by
  simp [Asked, or_and_right, exists_or]

/-- Whether a text is finished after some passes, when `cap` passes are allowed: no marker is left, or the
last pass was stopped, or passes lowered the number allowed and as many were made. -/
def Finished (cap : Nat) (text : String) (rs : List PassText) : Prop :=
  hasMarker (textAfter text rs) = false ∨ (∃ r, rs.getLast? = some r ∧ r.pass.stopped = true) ∨
    ∃ n, n < cap ∧ n ≤ rs.length ∧ Asked rs n

inductive Ends (pass : String → σ → Except ε PassText × σ) (unstable : Nat → ε) (cap : Nat)
    (text : String) (s : σ) : Except ε String × σ → Prop where
  | settled {rs : List PassText} {s' : σ} : Passes pass text s rs s' → rs.length ≤ cap →
    Finished cap text rs → (∀ k < rs.length, ¬ Finished cap text (rs.take k)) →
    Ends pass unstable cap text s (.ok (textAfter text rs), s')
  /-- With a fault of its own, after all passes allowed: each left a marker, and none lowered the number. -/
  | looped {rs : List PassText} {s' : σ} : Passes pass text s rs s' → rs.length = cap →
    (∀ k ≤ cap, hasMarker (textAfter text (rs.take k)) = true) →
    (∀ r ∈ rs, r.pass.stopped = false ∧ ∀ n, r.pass.passCap = some n → cap ≤ n) →
    Ends pass unstable cap text s (.error (unstable cap), s')
  | failed {rs : List PassText} {s' s'' : σ} {e : ε} : Passes pass text s rs s' → rs.length < cap →
    (∀ k ≤ rs.length, ¬ Finished cap text (rs.take k)) → pass (textAfter text rs) s' = (.error e, s'') →
    Ends pass unstable cap text s (.error e, s'')

/-- Where the loop stands after some passes that it went on after: the number of passes it now allows is
the least that was allowed or asked for. -/
structure Progress (pass : String → σ → Except ε PassText × σ) (cap : Nat) (text : String) (s : σ)
    (rs : List PassText) (now : Nat) (lowered : Bool) (s' : σ) : Prop where
  passes : Passes pass text s rs s'
  length_le : rs.length ≤ cap
  now_le : ∀ n, now ≤ n ↔ cap ≤ n ∨ Asked rs n
  lowered_iff : lowered = true ↔ now < cap
  running : ∀ r ∈ rs, r.pass.stopped = false
  earlier : ∀ k < rs.length, ¬ Finished cap text (rs.take k)

namespace Progress

variable {pass : String → σ → Except ε PassText × σ} {cap now : Nat} {text : String} {s s' : σ}
  {rs : List PassText} {lowered : Bool}

theorem start : Progress pass cap text s [] cap false s where
  passes := .none
  length_le := Nat.zero_le _
  now_le := by simp [Asked]
  lowered_iff := by simp
  running := by simp
  earlier := by simp

theorem not_finished (p : Progress pass cap text s rs now lowered s')
    (hm : hasMarker (textAfter text rs) = true) (hlt : rs.length < now) : ¬ Finished cap text rs := by
  rintro (h | ⟨r, hr, hstop⟩ | ⟨n, -, hn, hask⟩)
  · rw [hm] at h; cases h
  · rw [p.running r (List.mem_of_getLast? hr)] at hstop; cases hstop
  · have := (p.now_le n).2 (.inr hask)
    omega

theorem earlier_le (p : Progress pass cap text s rs now lowered s')
    (hm : hasMarker (textAfter text rs) = true) (hlt : rs.length < now) :
    ∀ k ≤ rs.length, ¬ Finished cap text (rs.take k) := by
  intro k hk
  rcases Nat.lt_or_eq_of_le hk with h | rfl
  · exact p.earlier k h
  · rw [List.take_length]
    exact p.not_finished hm hlt

theorem now_le_cap (p : Progress pass cap text s rs now lowered s') : now ≤ cap :=
  (p.now_le cap).2 (.inl (Nat.le_refl _))

theorem earlier_append {r : PassText} (h : ∀ k ≤ rs.length, ¬ Finished cap text (rs.take k)) :
    ∀ k < (rs ++ [r]).length, ¬ Finished cap text ((rs ++ [r]).take k) := by
  intro k hk
  have hk' : k ≤ rs.length := by simp at hk; omega
  rw [List.take_append_of_le_length hk']
  exact h k hk'

theorem more {r : PassText} {s'' : σ} (p : Progress pass cap text s rs now lowered s')
    (hm : hasMarker (textAfter text rs) = true) (hlt : rs.length < now)
    (hp : pass (textAfter text rs) s' = (.ok r, s'')) (hr : r.pass.stopped = false) :
    Progress pass cap text s (rs ++ [r]) (min (r.pass.passCap.getD now) now)
      (lowered || decide (r.pass.passCap.getD now < now)) s'' where
  passes := .more p.passes hp
  length_le := by have := p.now_le_cap; simp; omega
  now_le := by
    intro n
    rw [asked_append, ← or_assoc, ← p.now_le n]
    cases r.pass.passCap with
    | none => simp
    | some m => simp; omega
  lowered_iff := by
    have := p.now_le_cap
    rw [Bool.or_eq_true, p.lowered_iff, decide_eq_true_eq]
    omega
  running := by
    intro x hx
    rcases List.mem_append.1 hx with h | h
    · exact p.running x h
    · rw [List.mem_singleton.1 h]; exact hr
  earlier := earlier_append (p.earlier_le hm hlt)

end Progress

/-- All passes allowed were made: either passes lowered the number, or every pass was in vain. -/
theorem Progress.spent {pass : String → σ → Except ε PassText × σ} (unstable : Nat → ε) {cap now : Nat}
    {text : String} {s s' : σ} {rs : List PassText} {lowered : Bool}
    (p : Progress pass cap text s rs now lowered s') (hm : hasMarker (textAfter text rs) = true)
    (hcap : now ≤ rs.length) :
    Ends pass unstable cap text s
      (if lowered then .ok (textAfter text rs) else .error (unstable rs.length), s') := by
  have hle := p.length_le
  cases hl : lowered with
  | true =>
    have hlt : now < cap := p.lowered_iff.1 hl
    have hask : Asked rs now := ((p.now_le now).1 (Nat.le_refl _)).resolve_left (by omega)
    exact .settled p.passes hle (.inr (.inr ⟨now, hlt, hcap, hask⟩)) p.earlier
  | false =>
    have hnow : cap ≤ now := by
      rw [← Nat.not_lt, ← p.lowered_iff, hl]
      simp
    obtain rfl : rs.length = cap := by omega
    refine .looped p.passes rfl ?_ ?_
    · intro k hk
      rcases Nat.lt_or_eq_of_le hk with h | rfl
      · exact eq_true_of_ne_false fun h' => p.earlier k h (.inl h')
      · rwa [List.take_length]
    · intro r hr
      refine ⟨p.running r hr, fun n hn => ?_⟩
      have := (p.now_le n).2 (.inr ⟨r, hr, n, hn, Nat.le_refl _⟩)
      omega

/-- From wherever the loop stands, it ends in one of the three ways. -/
theorem settleFrom_ends {pass : String → σ → Except ε PassText × σ} (unstable : Nat → ε)
    {cap now passes : Nat} {text latest : String} {s s' : σ} {rs : List PassText} {lowered : Bool}
    (hn : passes = rs.length) (ht : latest = textAfter text rs)
    (p : Progress pass cap text s rs now lowered s') :
    Ends pass unstable cap text s (settleFrom pass unstable now passes lowered latest s') := by
  fun_induction settleFrom pass unstable now passes lowered latest s' generalizing rs with
  | case1 now passes lowered latest s' hm =>
    subst hn ht
    exact .settled p.passes p.length_le (.inl (by simpa using hm)) p.earlier
  | case2 now passes lowered latest s' hm hcap =>
    subst hn ht
    exact p.spent unstable (by simpa using hm) hcap
  | case3 now passes lowered latest s' hm hcap e s'' hp =>
    subst hn ht
    have hlt := p.now_le_cap
    exact .failed p.passes (by omega) (p.earlier_le (by simpa using hm) (by omega)) hp
  | case4 now passes lowered latest s' hm hcap r s'' hp hstop =>
    subst hn ht
    have hlt := p.now_le_cap
    have hearlier := p.earlier_le (by simpa using hm) (by omega)
    rw [← textAfter_append text rs r]
    refine .settled (.more p.passes hp) (by simp; omega) (.inr (.inl ⟨r, by simp, hstop⟩)) ?_
    exact Progress.earlier_append hearlier
  | case5 now passes lowered latest s' hm hcap r s'' hp hstop asked =>
    rename_i ih
    subst hn ht
    refine @ih (rs ++ [r]) (by simp) (by simp) ?_
    exact p.more (by simpa using hm) (by omega) hp (by simpa using hstop)

theorem hasMarker_eq_false_iff {text : String} : hasMarker text = false ↔ ¬marker <:+: text.toList := by
  rw [← Text.cut?_eq_none_iff, hasMarker, Text.occurs, Option.isSome_eq_false_iff, Option.isNone_iff_eq_none]

theorem hasMarker_iff {text : String} : hasMarker text = true ↔ marker <:+: text.toList := by
  rw [← Decidable.not_iff_not, ← hasMarker_eq_false_iff, Bool.not_eq_true]

namespace Engine

/-- Rendering until a text is stable makes a bounded number of passes, and how it ends is said by them. A text that is
reported as unstable has a marker after every one of the passes allowed, unless a pass itself failed so. -/
theorem renderStable_ends (e : Engine) (source : String) (context : Value) (w : World) :
    1 ≤ e.options.passes ∧ e.options.passes ≤ 1000 ∧
      Ends (e.pass context) (fun n => .failure (.unstable n)) e.options.passes source w
        (e.renderStable source context w) ∧
      (∀ text, hasMarker text = false ↔ ¬marker <:+: text.toList) ∧
      ∀ n w', e.renderStable source context w = (.error (.failure (.unstable n)), w') →
        (n = e.options.passes ∧ ∃ rs, Passes (e.pass context) source w rs w' ∧ rs.length = n ∧
          ∀ k ≤ n, marker <:+: (textAfter source (rs.take k)).toList) ∨
        ∃ text w₁, e.pass context text w₁ = (.error (.failure (.unstable n)), w') := by
  have hends : Ends (e.pass context) (fun n => .failure (.unstable n)) e.options.passes source w
      (e.renderStable source context w) := settleFrom_ends _ rfl rfl .start
  refine ⟨Nat.le_max_left _ _, ?_, hends, fun text => hasMarker_eq_false_iff, fun n w' hunstable => ?_⟩
  · simp only [Options.passes, Options.passLimit]
    omega
  · rw [hunstable] at hends
    cases hends with
    | looped hpasses hlength hmarkers =>
      exact .inl ⟨rfl, _, hpasses, hlength, fun k hk => hasMarker_iff.1 (hmarkers k hk)⟩
    | failed _ _ _ hfails => exact .inr ⟨_, _, hfails⟩

/-- The one pass that is allowed leaves a marker that was quoted. -/
theorem renderStable_ends_once :
    let e : Engine := { Engine.default with options := { Options.default with maxPasses := 1 } }
    let source := "$$#literal$$$$1$$$$/literal$$"
    ∃ w', e.renderStable source .null .empty = (.error (.failure (.unstable 1)), w') ∧
      ((∃ rs, Passes (e.pass .null) source .empty rs w' ∧ rs.length = 1 ∧
          ∀ k ≤ 1, marker <:+: (textAfter source (rs.take k)).toList) ∨
        ∃ text w₁, e.pass .null text w₁ = (.error (.failure (.unstable 1)), w')) := by
  intro e source
  have hpass : (e.pass .null source .empty).1.toOption.map (fun r => (r.text, r.pass)) =
      some ("$$1$$", ⟨false, none⟩) := by decide +kernel
  have hunstable : ∃ w', e.renderStable source .null .empty = (.error (.failure (.unstable 1)), w') := by
    unfold renderStable settle
    rw [settleFrom, if_neg (by decide), dif_neg (by decide)]
    generalize e.pass .null source .empty = x at hpass
    obtain ⟨r, w'⟩ := x
    cases r with
    | error d => cases hpass
    | ok r =>
      obtain ⟨text, pass⟩ := r
      obtain ⟨rfl, rfl⟩ := Prod.mk.inj (Option.some.inj hpass)
      refine ⟨w', ?_⟩
      dsimp only
      rw [if_neg (by decide), settleFrom, if_neg (by decide), dif_pos (by decide)]
      rfl
  obtain ⟨w', hunstable⟩ := hunstable
  obtain ⟨-, -, -, -, hloop⟩ := renderStable_ends e source .null .empty
  exact ⟨w', hunstable, (hloop 1 w' hunstable).imp_left And.right⟩

end Engine

end Stencil
