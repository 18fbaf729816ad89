import Stencil.Proofs.Operator.Soundness
set_option autoImplicit false

namespace Stencil

def Kind.Exact (w : World) (k : Kind) (v : Value) : Prop := k = .any ∨ k = v.kind w

def Kind.Coarser (k j : Kind) : Prop := k = .any ∨ k = j

variable {w : World} {l r v : Value} {kl kr k jl jr j : Kind}

namespace Kind

theorem Exact.eq (hk : k.Exact w v) (hany : k ≠ .any) : k = v.kind w := hk.resolve_left hany

end Kind

namespace BinaryOp

variable {op : BinaryOp}

theorem promote_of_arithmetic (hl : l ≠ .null) (hr : r ≠ .null) (h : op.arithmetic w l r = .ok v) :
    (l.kind w).promote (r.kind w) = some (v.kind w) := by
  have hnull : (l.isNull || r.isNull) = false := by
    cases l <;> cases r <;> simp_all [Value.isNull]
  simp only [arithmetic, hnull] at h
  split at h
  · contradiction
  · split at h
    · next k hk =>
      rw [hk]
      split at h
      · unfold onInts at h
        dsimp only at h
        split at h
        · cases h; rfl
        · cases h; rfl
        · cases h; rfl
        all_goals
          split at h
          · cases h
          · cases h; rfl
      · cases h
    · next k hk =>
      rw [hk]
      split at h
      · cases h
        rw [kind_onFloats]
      · cases h
    · cases h

theorem bitwise_result_ne_null (h : op.bitwise w l r = .ok v) : v ≠ .null := by
  unfold bitwise at h
  split at h
  · cases h; nofun
  · split at h <;> (cases h; nofun)
  · split at h
    · cases h; nofun
    · cases h

theorem bool_of_relational (h : op.relational w l r = .ok v) : v.kind w = .bool := by
  unfold relational at h
  split at h
  · cases h; rfl
  · split at h
    · cases h; rfl
    · cases h

theorem kind_relational_bool (hop : op.isRelational) (hk : op.kind kl kr = .ok k) : k = .bool := by
  rw [kind_relational hop] at hk
  split at hk
  · cases hk; rfl
  · split at hk <;> cases hk
    rfl

theorem exact_arithmetic (hop : op.isArithmetic) (hl : kl.Exact w l) (hr : kr.Exact w r)
    (hk : op.kind kl kr = .ok k) (h : op.apply w l r = .ok v) : k.Exact w v := by
  obtain ⟨⟨rfl, hj⟩, rfl⟩ | rfl | ⟨hnl, hnr, hp⟩ := kind_arithmetic_cases hop hk
  · have hjoins : add.Joins (l.kind w) (r.kind w) := by
      refine ⟨rfl, ?_⟩
      obtain rfl | rfl := hj
      · exact .inl (hl.eq nofun).symm
      · exact .inr (hr.eq nofun).symm
    obtain ⟨s, hs⟩ := apply_join hjoins
    cases hs.symm.trans h
    exact .inr rfl
  · exact .inl rfl
  · have hl := hl.eq (by rintro rfl; cases hnl)
    have hr := hr.eq (by rintro rfl; cases hnr)
    have hjoins : ¬op.Joins (l.kind w) (r.kind w) := by
      rintro ⟨-, htext | htext⟩
      · rw [hl, htext] at hnl; cases hnl
      · rw [hr, htext] at hnr; cases hnr
    rw [apply_arithmetic hop hjoins] at h
    have hnull (u : Value) (hu : takesNumber (u.kind w)) : u ≠ .null := by rintro rfl; cases hu
    have hv := promote_of_arithmetic (hnull l (hl ▸ hnl)) (hnull r (hr ▸ hnr)) h
    rw [← hl, ← hr, hp] at hv
    exact .inr (Option.some.inj hv)

theorem exact_bitwise (hop : op.isBitwise) (hl : kl.Exact w l) (hr : kr.Exact w r) (hk : op.kind kl kr = .ok k)
    (h : op.apply w l r = .ok v) : k.Exact w v := by
  obtain rfl | hcases := kind_bitwise_cases hop hk
  · exact .inl rfl
  · have hl := hl.eq (by rintro rfl; obtain ⟨h, -⟩ | ⟨h, -⟩ := hcases <;> cases h)
    have hr := hr.eq (by rintro rfl; obtain ⟨-, h, -⟩ | ⟨-, h, -⟩ := hcases <;> cases h)
    rw [hl, hr] at hk
    have hne : op ≠ coalesce := by rintro rfl; cases hop
    obtain rfl | hv | rfl := (apply_agrees hne).value_kind hk h
    · rw [apply_bitwise hop] at h
      exact (bitwise_result_ne_null h rfl).elim
    · exact .inr hv.symm
    · exact .inl rfl

/-- Of the result of an operator nothing is known, or exactly its kind. -/
theorem exact_apply (hop : op ≠ coalesce) (hl : kl.Exact w l) (hr : kr.Exact w r) (hk : op.kind kl kr = .ok k)
    (h : op.apply w l r = .ok v) : k.Exact w v := by
  cases op with
  | coalesce => exact (hop rfl).elim
  | eq | ne | and | or => cases hk; cases h; exact .inr rfl
  | matched | unmatched =>
    rw [kind_match (by simp)] at hk
    obtain ⟨b, -, rfl⟩ := exists_of_map_ok h
    split at hk <;> cases hk
    exact .inr rfl
  | lt | le | gt | ge => exact .inr ((kind_relational_bool rfl hk).trans (bool_of_relational h).symm)
  | mul | div | rem | add | sub => exact exact_arithmetic rfl hl hr hk h
  | bitAnd | bitXor | bitOr => exact exact_bitwise rfl hl hr hk h

theorem coarser_arithmetic (hop : op.isArithmetic) (hl : jl.Coarser kl) (hr : jr.Coarser kr)
    (hk : op.kind kl kr = .ok k) (hj : op.kind jl jr = .ok j) : j.Coarser k := by
  obtain ⟨⟨rfl, htext⟩, rfl⟩ | rfl | ⟨hnl, hnr, -⟩ := kind_arithmetic_cases hop hj
  · have hjoins : add.Joins kl kr := by
      refine ⟨rfl, ?_⟩
      obtain rfl | rfl := htext
      · exact .inl (hl.resolve_left nofun).symm
      · exact .inr (hr.resolve_left nofun).symm
    rw [kind_join hjoins] at hk
    exact .inr (Except.ok.inj hk)
  · exact .inl rfl
  · rw [hl.resolve_left (by rintro rfl; cases hnl), hr.resolve_left (by rintro rfl; cases hnr), hk] at hj
    exact .inr (Except.ok.inj hj).symm

theorem coarser_bitwise (hop : op.isBitwise) (hl : jl.Coarser kl) (hr : jr.Coarser kr)
    (hk : op.kind kl kr = .ok k) (hj : op.kind jl jr = .ok j) : j.Coarser k := by
  obtain rfl | hcases := kind_bitwise_cases hop hj
  · exact .inl rfl
  · have hl := hl.resolve_left (by rintro rfl; obtain ⟨h, -⟩ | ⟨h, -⟩ := hcases <;> cases h)
    have hr := hr.resolve_left (by rintro rfl; obtain ⟨-, h, -⟩ | ⟨-, h, -⟩ := hcases <;> cases h)
    rw [hl, hr, hk] at hj
    exact .inr (Except.ok.inj hj).symm

/-- Where less is known of the operands, no more is known of the result. -/
theorem coarser_kind (hop : op ≠ coalesce) (hl : jl.Coarser kl) (hr : jr.Coarser kr) (hk : op.kind kl kr = .ok k)
    (hj : op.kind jl jr = .ok j) : j.Coarser k := by
  cases op with
  | coalesce => exact (hop rfl).elim
  | eq | ne | and | or => cases hk; cases hj; exact .inr rfl
  | matched | unmatched =>
    rw [kind_match (by simp)] at hk hj
    split at hk <;> split at hj <;> cases hk <;> cases hj
    exact .inr rfl
  | lt | le | gt | ge => exact .inr ((kind_relational_bool rfl hj).trans (kind_relational_bool rfl hk).symm)
  | mul | div | rem | add | sub => exact coarser_arithmetic rfl hl hr hk hj
  | bitAnd | bitXor | bitOr => exact coarser_bitwise rfl hl hr hk hj

end BinaryOp

namespace UnaryOp

variable {op : UnaryOp} {u : Value}

theorem exact_apply (hv : k.Exact w v) (hk : op.kind k = .ok j) (h : op.apply w v = .ok u) : j.Exact w u := by
  obtain ⟨rfl, rfl⟩ | rfl | ⟨hop, hn, -⟩ := kind_cases hk
  · cases h; exact .inr rfl
  · exact .inl rfl
  · have hv := hv.eq (by rintro rfl; cases hn)
    subst hv
    obtain rfl | hu | rfl := (apply_agrees op w v).value_kind hk h
    · cases v with
      | int | float | enum => cases op <;> cases h
      | object ref => rw [Value.kind_eq] at hn; cases hn
      | _ => cases hn
    · exact .inr hu.symm
    · exact .inl rfl

theorem coarser_kind (hkj : j.Coarser k) {k' j' : Kind} (hk : op.kind k = .ok k') (hj : op.kind j = .ok j') :
    j'.Coarser k' := by
  obtain rfl | rfl := hkj
  · cases op with
    | not => cases hk; cases hj; exact .inr rfl
    | neg | plus | bitNot => cases hj; exact .inl rfl
  · exact .inr (Except.ok.inj (hj.symm.trans hk))

end UnaryOp

end Stencil
