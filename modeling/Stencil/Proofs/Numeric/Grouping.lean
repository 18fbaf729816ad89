import Mathlib.Data.List.TakeWhile
import Stencil.Numeric.Format
set_option autoImplicit false

namespace Stencil.NumberFormat

/-- Runs of three digits, of which only the leftmost may be shorter. -/
def InThrees : List (List Char) → Prop
  | [] => False
  | first :: rest => 1 ≤ first.length ∧ first.length ≤ 3 ∧ ∀ run ∈ rest, run.length = 3

theorem length_flatten_of_threes {runs : List (List Char)} (h : ∀ run ∈ runs, run.length = 3) :
    runs.flatten.length = 3 * runs.length := by
  induction runs with
  | nil => rfl
  | cons run runs ih =>
    obtain ⟨hrun, hruns⟩ := List.forall_mem_cons.1 h
    simp only [List.flatten_cons, List.length_append, List.length_cons, hrun, ih hruns]
    omega

theorem exists_runs (c : Char) {ds : List Char} (h : ds ≠ []) :
    ∃ runs, InThrees runs ∧ runs.flatten = ds ∧ group c ds = [c].intercalate runs := by
  induction ds with
  | nil => exact absurd rfl h
  | cons d ds ih =>
    by_cases hds : ds = []
    · subst hds
      exact ⟨[[d]], by simp [InThrees], rfl, rfl⟩
    obtain ⟨runs, hruns, hflat, hgroup⟩ := ih hds
    cases runs with
    | nil => exact hruns.elim
    | cons first rest =>
      obtain ⟨hpos, hle, hrest⟩ := hruns
      -- The leftmost run of the digits so far is full exactly if their number is a multiple of three.
      have hlength : ds.length = first.length + 3 * rest.length := by
        rw [← hflat, List.flatten_cons, List.length_append, length_flatten_of_threes hrest]
      by_cases hfull : ds.length % 3 = 0
      · refine ⟨[d] :: first :: rest, ⟨by simp, by simp, ?_⟩, by simp [← hflat], ?_⟩
        · exact List.forall_mem_cons.2 ⟨by omega, hrest⟩
        · simp [group, hds, hfull, hgroup]
      · refine ⟨(d :: first) :: rest, ⟨by simp, by simp; omega, hrest⟩, by simp [← hflat], ?_⟩
        simp only [group, hfull, decide_false, Bool.and_false, Bool.false_eq_true, if_false, hgroup]
        cases rest <;> simp

theorem filter_group {c : Char} {ds : List Char} (h : c ∉ ds) : (group c ds).filter (fun d => some c ≠ some d) = ds := by
  induction ds with
  | nil => rfl
  | cons d ds ih =>
    obtain ⟨hd, hds⟩ := not_or.1 (mt List.mem_cons.2 h)
    unfold group
    split <;> simpa [hd] using ih hds

theorem mem_group {c d : Char} {ds : List Char} (h : d ∈ group c ds) : d = c ∨ d ∈ ds := by
  induction ds with
  | nil => exact .inr h
  | cons e ds ih =>
    unfold group at h
    split at h <;> simp only [List.mem_cons] at h ⊢ <;> grind

theorem head?_group (c : Char) (ds : List Char) : (group c ds).head? = ds.head? := by
  cases ds with
  | nil => rfl
  | cons d ds =>
    unfold group
    split <;> rfl

theorem getLast?_group (c : Char) (ds : List Char) : (group c ds).getLast? = ds.getLast? := by
  induction ds with
  | nil => rfl
  | cons d ds ih =>
    unfold group
    split
    · next h =>
      cases ds with
      | nil => simp at h
      | cons e es => simp [List.getLast?_cons, ih]
    · rw [List.getLast?_cons, List.getLast?_cons, ih]

theorem isDigit_digitsOf {n : Nat} {d : Char} (h : d ∈ Decimal.digitsOf n) : d.isDigit = true :=
  Nat.isDigit_of_mem_toDigits (by decide) (by decide) h

theorem toList_toString (v : Int) :
    (toString v).toList = (if v < 0 then ['-'] else []) ++ Decimal.digitsOf v.natAbs := by
  cases v with
  | ofNat n => simp [Decimal.digitsOf, toString, Int.repr]
  | negSucc n => simp [Decimal.digitsOf, toString, Int.repr, Int.negSucc_lt_zero]

theorem splitAt_of_none {p : Char → Bool} {cs : List Char} (h : ∀ c ∈ cs, p c = false) : splitAt p cs = (cs, []) := by
  have hnot : ∀ c ∈ cs, (!p c) = true := fun c hc => by rw [h c hc]; rfl
  rw [splitAt, List.takeWhile_eq_self_iff.2 hnot, List.dropWhile_eq_nil_iff.2 hnot]

/-- Digits alone have neither an exponent nor a fraction. -/
theorem apply_digits (f : NumberFormat) {text sign ds : List Char} (hsign : splitSign text = (sign, ds))
    (htext : text = sign ++ ds) (hds : ∀ d ∈ ds, d.isDigit = true) : f.apply text = sign ++ f.grouped ds := by
  have hapart {c : Char} (hc : c.isDigit = false) : ∀ d ∈ ds, d ≠ c := by
    rintro d hd rfl
    exact absurd (hds d hd) (by rw [hc]; decide)
  have hexponent : ∀ d ∈ ds, (decide (d = 'e') || decide (d = 'E')) = false := fun d hd => by
    simp [hapart (c := 'e') rfl d hd, hapart (c := 'E') rfl d hd]
  have hpoint : ∀ d ∈ ds, decide (d = '.') = false := fun d hd => decide_eq_false (hapart rfl d hd)
  unfold apply
  split
  · next hplain => rw [htext, hplain]; rfl
  · simp only [hsign, splitAt_of_none hexponent, splitAt_of_none hpoint, List.append_nil]

theorem toList_int (f : NumberFormat) (v : Int) :
    (f.int v).toList = (if v < 0 then ['-'] else []) ++ f.grouped (Decimal.digitsOf v.natAbs) := by
  have hdigit : ∀ d ∈ Decimal.digitsOf v.natAbs, d.isDigit = true := fun d => isDigit_digitsOf
  unfold int
  rw [String.toList_ofList]
  split
  · exact f.apply_digits rfl rfl hdigit
  · refine f.apply_digits ?_ rfl hdigit
    unfold splitSign
    split
    · next cs hminus => exact absurd (hdigit '-' (hminus ▸ List.mem_cons_self)) (by decide)
    · rfl

/-- The text of an integer is its plain decimal, with the separator between runs of three digits, counted from the
right. A minus sign stands only in front, and no separator stands beside it or at an end of the text. -/
theorem int_in_threes (f : NumberFormat) (v : Int) (hsep : ∀ c ∈ f.groupSeparator, c.isDigit = false ∧ c ≠ '-') :
    (f.int v).toList.filter (fun d => f.groupSeparator ≠ some d) = (toString v).toList ∧
    (∃ body, (f.int v).toList = (if v < 0 then ['-'] else []) ++ body ∧ '-' ∉ body ∧
      ∀ c ∈ f.groupSeparator, body.head? ≠ some c ∧ body.getLast? ≠ some c ∧ InThrees (body.splitOn c) ∧
        ∀ run ∈ body.splitOn c, ∀ d ∈ run, d.isDigit = true) ∧
    (f.groupSeparator = none → f.int v = toString v) := by
  obtain ⟨point, separator⟩ := f
  have hne : Decimal.digitsOf v.natAbs ≠ [] := Nat.toDigits_ne_nil
  have hdigit : ∀ d ∈ Decimal.digitsOf v.natAbs, d.isDigit = true := fun d => isDigit_digitsOf
  have hminus : '-' ∉ Decimal.digitsOf v.natAbs := fun h => absurd (hdigit _ h) (by decide)
  rw [toList_int, toList_toString, ← String.toList_inj, toList_int, toList_toString]
  generalize Decimal.digitsOf v.natAbs = ds at *
  cases separator with
  | none => exact ⟨List.filter_eq_self.2 (by simp), ⟨ds, rfl, hminus, by simp⟩, fun _ => rfl⟩
  | some c =>
    obtain ⟨hc, hsign⟩ := hsep c rfl
    have hapart : c ∉ ds := fun h => by simp [hdigit c h] at hc
    refine ⟨?_, ⟨group c ds, rfl, ?_, ?_⟩, by simp⟩
    · rw [List.filter_append]
      congr 1
      · split <;> simp [hsign]
      · exact filter_group hapart
    · intro h
      rcases mem_group h with h | h
      · exact hsign h.symm
      · exact hminus h
    · intro c' hc'
      obtain rfl : c = c' := by simpa using hc'
      obtain ⟨runs, hruns, hflat, hgroup⟩ := exists_runs c hne
      have hmem : ∀ run ∈ runs, ∀ d ∈ run, d ∈ ds := fun run hrun d hd => hflat ▸ List.mem_flatten.2 ⟨run, hrun, hd⟩
      have hsplit : (group c ds).splitOn c = runs := by
        rw [hgroup]
        refine List.splitOn_intercalate c (fun run hrun h => hapart (hmem run hrun c h)) ?_
        rintro rfl
        exact hruns
      refine ⟨?_, ?_, hsplit ▸ hruns, ?_⟩
      · exact fun h => hapart (List.mem_of_head? ((head?_group c ds).symm.trans h))
      · exact fun h => hapart (List.mem_of_getLast? ((getLast?_group c ds).symm.trans h))
      · rw [hsplit]
        exact fun run hrun d hd => hdigit d (hmem run hrun d hd)

theorem int_in_threes_negative :
    NumberFormat.int ⟨',', some '.'⟩ (-1234567) = "-1.234.567" ∧
      ((NumberFormat.int ⟨',', some '.'⟩ (-1234567)).toList.filter fun d => some '.' ≠ some d) =
        (toString (-1234567 : Int)).toList :=
  ⟨by decide, (int_in_threes ⟨',', some '.'⟩ (-1234567) (by rintro c ⟨⟩; decide)).1⟩

end Stencil.NumberFormat
