import Stencil.Proofs.Operator.Agreement
import Stencil.Proofs.Value.Inhabits
set_option autoImplicit false

namespace Stencil

variable {w : World} {l r v u : Value} {kl kr k : Kind} {known : EnumType → Prop}

theorem Kind.over_promote (h : kl.promote kr = some k) : k.Over known := by
  cases kl <;> cases kr <;> simp [promote, number?, integral?] at h <;> subst h <;> trivial

theorem Kind.over_meet (hl : kl.Over known) (hr : kr.Over known) : (kl.meet kr).Over known := by
  unfold Kind.meet
  split
  · exact hr
  · exact hl
  · split
    · exact hl
    · cases h : kl.promote kr with
      | none => trivial
      | some k => exact over_promote h

namespace BinaryOp

variable {op : BinaryOp}

theorem kind_arithmetic_cases (hop : op.isArithmetic) (h : op.kind kl kr = .ok k) :
    (op.Joins kl kr ∧ k = .text) ∨ k = .any ∨
      (takesNumber kl ∧ takesNumber kr ∧ kl.promote kr = some k) := by
  by_cases hj : op.Joins kl kr
  · rw [kind_join hj] at h
    cases h
    exact .inl ⟨hj, rfl⟩
  · rw [kind_arithmetic hop hj] at h
    split at h
    · cases h; exact .inr (.inl rfl)
    · split at h
      · next hn =>
        rw [Bool.and_eq_true] at hn
        cases hp : kl.promote kr with
        | none => rw [hp] at h; cases h
        | some j => rw [hp] at h; cases h; exact .inr (.inr ⟨hn.1, hn.2, rfl⟩)
      · cases h

theorem kind_bitwise_cases (hop : op.isBitwise) (h : op.kind kl kr = .ok k) :
    k = .any ∨ (kl = .bool ∧ kr = .bool ∧ k = .bool) ∨
      (kl.integral?.isSome ∧ kr.integral?.isSome ∧ (k = kl ∨ ∃ j, k = .int j)) := by
  rw [kind_bitwise hop] at h
  split at h
  · cases h; exact .inl rfl
  · split at h
    · cases h; exact .inr (.inl ⟨rfl, rfl, rfl⟩)
    · split at h
      · cases h; exact .inr (.inr ⟨rfl, rfl, .inl rfl⟩)
      · cases h; exact .inr (.inr ⟨rfl, rfl, .inr ⟨_, rfl⟩⟩)
    · split at h
      · next hj hk => cases h; exact .inr (.inr ⟨by rw [hj]; rfl, by rw [hk]; rfl, .inr ⟨_, rfl⟩⟩)
      · cases h

theorem over_kind (hl : kl.Over known) (hr : kr.Over known) (h : op.kind kl kr = .ok k) : k.Over known := by
  cases op with
  | eq | ne | and | or => cases h; trivial
  | coalesce => cases h; exact Kind.over_meet hl hr
  | matched | unmatched =>
    rw [kind_match (by simp)] at h
    split at h <;> cases h
    trivial
  | lt | le | gt | ge =>
    rw [kind_relational rfl] at h
    split at h
    · cases h; trivial
    · split at h <;> cases h
      trivial
  | bitAnd | bitXor | bitOr =>
    obtain rfl | ⟨-, -, rfl⟩ | ⟨-, -, rfl | ⟨j, rfl⟩⟩ := kind_bitwise_cases rfl h
    · trivial
    · trivial
    · exact hl
    · trivial
  | mul | div | rem | add | sub =>
    obtain ⟨-, rfl⟩ | rfl | ⟨-, -, hp⟩ := kind_arithmetic_cases rfl h
    · trivial
    · trivial
    · exact Kind.over_promote hp

theorem has_apply_of_kind (hop : op ≠ coalesce) (hk : op.kind kl kr = .ok k) (hover : k.Over known)
    (hl : l.kind w = kl) (hr : r.kind w = kr) (h : op.apply w l r = .ok v) : Has k v := by
  subst hl hr
  obtain rfl | rfl | rfl := (apply_agrees hop).value_kind hk h
  · exact .null
  · exact .of_kind hover
  · exact .any

theorem has_relational (h : op.relational w l r = .ok v) : Has .bool v := by
  unfold relational at h
  split at h
  · cases h; exact .bool _
  · split at h
    · cases h; exact .bool _
    · cases h

theorem arithmetic_null (h : l.isNull || r.isNull) : op.arithmetic w l r = .ok .null := by
  simp only [arithmetic, if_pos h]

theorem has_join (hop : op.Joins kl kr) (hl : Has kl l) (hr : Has kr r) (h : op.apply w l r = .ok v) :
    Has .text v := by
  obtain ⟨rfl, hop⟩ := hop
  by_cases hj : add.Joins (l.kind w) (r.kind w)
  · obtain ⟨s, hs⟩ := apply_join hj
    rw [hs] at h
    cases h
    exact .text s
  · have hnull : l.isNull || r.isNull := by
      obtain rfl | rfl := hop
      · cases hl with
        | null => rfl
        | text s => exact absurd ⟨rfl, .inl rfl⟩ hj
      · cases hr with
        | null => exact Bool.or_true _
        | text s => exact absurd ⟨rfl, .inr rfl⟩ hj
    rw [apply_arithmetic rfl hj, arithmetic_null hnull] at h
    cases h
    exact .null

theorem kind_ne_text (hk : takesNumber k) (h : Has k v) : v.kind w ≠ .text := by
  cases h <;> simp_all [takesNumber, Value.kind_eq]

theorem has_number (hop : op.isArithmetic) (hk : op.kind kl kr = .ok k) (hl : Has kl l) (hr : Has kr r)
    (hnl : takesNumber kl) (hnr : takesNumber kr) (hp : kl.promote kr = some k)
    (h : op.apply w l r = .ok v) : Has k v := by
  have hj : ¬op.Joins (l.kind w) (r.kind w) := by
    rintro ⟨-, htext | htext⟩
    · exact kind_ne_text hnl hl htext
    · exact kind_ne_text hnr hr htext
  obtain rfl | rfl | ⟨_, rfl⟩ | hl := hl.kind_cases w
  · rw [apply_arithmetic hop hj, arithmetic_null (by rfl)] at h
    cases h
    exact .null
  · cases hnl
  · cases hnl
  obtain rfl | rfl | ⟨_, rfl⟩ | hr := hr.kind_cases w
  · rw [apply_arithmetic hop hj, arithmetic_null (by simp [Value.isNull])] at h
    cases h
    exact .null
  · cases hnr
  · cases hnr
  exact has_apply_of_kind (by rintro rfl; cases hop) hk (@Kind.over_promote kl kr k (fun _ => True) hp) hl hr h

theorem bitwise_ne_null (h : op.bitwise w l r = .ok v) : l ≠ .null ∧ r ≠ .null := by
  constructor
  · rintro rfl
    obtain ⟨_, _, he⟩ := @bitwise_refused w .null r op nofun (.inl rfl)
    rw [he] at h
    cases h
  · rintro rfl
    obtain ⟨_, _, he⟩ := @bitwise_refused w l .null op nofun (.inr rfl)
    rw [he] at h
    cases h

theorem has_bitwise (hop : op.isBitwise) (hover : k.Over known) (hk : op.kind kl kr = .ok k) (hl : Has kl l)
    (hr : Has kr r) (h : op.apply w l r = .ok v) : Has k v := by
  have hne : op ≠ coalesce := by rintro rfl; cases hop
  have hnull := bitwise_ne_null (apply_bitwise hop ▸ h)
  obtain rfl | hcases := kind_bitwise_cases hop hk
  · exact .any
  obtain rfl | rfl | ⟨_, rfl⟩ | hl := hl.kind_cases w
  · exact absurd rfl hnull.1
  · simp [Kind.integral?] at hcases
  · simp [Kind.integral?] at hcases
  obtain rfl | rfl | ⟨_, rfl⟩ | hr := hr.kind_cases w
  · exact absurd rfl hnull.2
  · simp [Kind.integral?] at hcases
  · simp [Kind.integral?] at hcases
  exact has_apply_of_kind hne hk hover hl hr h

theorem has_apply (hop : op ≠ coalesce) (hkl : kl.Over known) (hkr : kr.Over known)
    (hk : op.kind kl kr = .ok k) (hl : Has kl l) (hr : Has kr r) (h : op.apply w l r = .ok v) : Has k v := by
  have hover := over_kind hkl hkr hk
  cases op with
  | eq | ne | and | or => cases hk; cases h; exact .bool _
  | matched | unmatched =>
    rw [kind_match (by simp)] at hk
    split at hk <;> cases hk
    obtain ⟨b, -, rfl⟩ := exists_of_map_ok h
    exact .bool _
  | lt | le | gt | ge =>
    rw [kind_relational rfl] at hk
    have hv := has_relational h
    split at hk
    · cases hk; exact hv
    · split at hk <;> cases hk
      exact hv
  | bitAnd | bitXor | bitOr => exact has_bitwise rfl hover hk hl hr h
  | mul | div | rem | add | sub =>
    obtain ⟨hj, rfl⟩ | rfl | ⟨hnl, hnr, hp⟩ := kind_arithmetic_cases rfl hk
    · exact has_join hj hl hr h
    · exact .any
    · exact has_number rfl hk hl hr hnl hnr hp h
  | coalesce => exact absurd rfl hop

end BinaryOp

namespace UnaryOp

variable {op : UnaryOp}

theorem kind_cases (h : op.kind k = .ok kr) :
    (op = not ∧ kr = .bool) ∨ kr = .any ∨
      (op ≠ not ∧ BinaryOp.takesNumber k ∧ (kr = k ∨ ∃ j, kr = .int j)) := by
  cases op with
  | not => cases h; exact .inl ⟨rfl, rfl⟩
  | neg | plus =>
    cases k with
    | any | null => cases h; exact .inr (.inl rfl)
    | float => cases h; exact .inr (.inr ⟨nofun, rfl, .inl rfl⟩)
    | int | enum => cases h; exact .inr (.inr ⟨nofun, rfl, .inr ⟨_, rfl⟩⟩)
    | _ => cases h
  | bitNot =>
    cases k with
    | any | null => cases h; exact .inr (.inl rfl)
    | int => cases h; exact .inr (.inr ⟨nofun, rfl, .inr ⟨_, rfl⟩⟩)
    | enum => cases h; exact .inr (.inr ⟨nofun, rfl, .inl rfl⟩)
    | _ => cases h

theorem over_kind (hk : k.Over known) (h : op.kind k = .ok kr) : kr.Over known := by
  obtain ⟨-, rfl⟩ | rfl | ⟨-, -, rfl | ⟨j, rfl⟩⟩ := kind_cases h
  · trivial
  · trivial
  · exact hk
  · trivial

theorem has_apply (hover : k.Over known) (hk : op.kind k = .ok kr) (hv : Has k v)
    (h : op.apply w v = .ok u) : Has kr u := by
  have hover := over_kind hover hk
  obtain ⟨rfl, rfl⟩ | rfl | ⟨hop, hn, -⟩ := kind_cases hk
  · cases h; exact .bool _
  · exact .any
  obtain rfl | rfl | ⟨_, rfl⟩ | rfl := hv.kind_cases w
  · cases op with
    | not => exact absurd rfl hop
    | _ => cases h; exact .null
  · cases hn
  · cases hn
  obtain rfl | rfl | rfl := (op.apply_agrees w v).value_kind hk h
  · exact .null
  · exact .of_kind hover
  · exact .any

end UnaryOp

end Stencil
