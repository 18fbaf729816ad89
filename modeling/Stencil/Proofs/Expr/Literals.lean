import Mathlib
import Stencil.Command.Context
import Stencil.Proofs.Expr.Arguments
import Stencil.Proofs.Expr.Grammar
import Stencil.Proofs.Numeric.Basic
import Stencil.Proofs.Token.Rules
import Stencil.Proofs.Token.Scans
/-!
Literals read back. A text or a pattern that is written out between quotes, and an integer that is written in digits
of either base, are each one token, and the token has the text, the pattern or the integer that was written.
-/
set_option autoImplicit false

namespace Stencil

open Text (byteLength)

namespace Token

variable {c q : Char} {cs rest : List Char}

theorem scan_single {t : Option Token} (hc : isLayout c = false) (h : read c cs = (t, [])) :
    scan (String.ofList (c :: cs)) = [⟨t, ⟨0, byteLength (c :: cs)⟩⟩] := by
  rw [scan, String.toList_ofList, scanFrom, if_neg (by simp [hc]), h]
  simp only [Text.before_nil, scanFrom, Nat.zero_add]

/-! ### Quotes -/

/-- A text as it stands between two quotes: a backtick stands before every backtick and every such quote. -/
def escaped (q : Char) (cs : List Char) : List Char :=
  cs.flatMap fun c => if c = '\x60' || c = q then ['\x60', c] else [c]

/-- A pattern as it stands between quotes: every quote is doubled. -/
def doubled (cs : List Char) : List Char :=
  cs.flatMap fun c => if c = '"' then ['"', '"'] else [c]

theorem escaped_mark (h : c = '\x60' ∨ c = q) (cs : List Char) :
    escaped q (c :: cs) = '\x60' :: c :: escaped q cs := by
  simp [escaped, h]

theorem escaped_char (hc : c ≠ '\x60') (hq : c ≠ q) (cs : List Char) : escaped q (c :: cs) = c :: escaped q cs := by
  simp [escaped, hc, hq]

theorem quote_ne (hq : isQuote q = true) : q ≠ '\x60' ∧ q ≠ '\n' := by
  obtain rfl | rfl := isQuote_iff.1 hq <;> decide

theorem readQuoted_mark (hc : c ≠ '\n') (cs : List Char) :
    readQuoted q ('\x60' :: c :: cs) = ((readQuoted q cs).push c).push '\x60' := by
  rw [readQuoted, if_pos rfl, if_neg hc]

/-- The closing quote is the first that no backtick stands before. -/
theorem readQuoted_escaped (hq : isQuote q = true) (cs rest : List Char) :
    readQuoted q (escaped q cs ++ q :: rest) = ⟨escaped q cs, rest, true⟩ := by
  obtain ⟨htick, hline⟩ := quote_ne hq
  induction cs with
  | nil => exact readQuoted_quote htick rest
  | cons c cs ih =>
    by_cases h : c = '\x60' ∨ c = q
    · have hc : c ≠ '\n' := by rintro rfl; exact h.elim (by decide) fun h => hline h.symm
      rw [escaped_mark h, List.cons_append, List.cons_append, readQuoted_mark hc, ih]
      rfl
    · obtain ⟨hc, hcq⟩ := not_or.1 h
      rw [escaped_char hc hcq, List.cons_append, readQuoted_char hc hcq, ih]
      rfl

theorem unescape?_escaped (hq : isQuote q = true) (cs : List Char) : unescape? (escaped q cs) = some cs := by
  induction cs with
  | nil => rfl
  | cons c cs ih =>
    by_cases h : c = '\x60' ∨ c = q
    · rw [escaped_mark h]
      obtain rfl | rfl := h
      · simp only [unescape?, ih]; rfl
      · obtain rfl | rfl := isQuote_iff.1 hq <;> (simp only [unescape?, ih]; rfl)
    · obtain ⟨hc, hcq⟩ := not_or.1 h
      rw [escaped_char hc hcq, unescape?, if_neg hc, ih]
      · rfl
      · rintro d ds rfl -
        exact hc rfl

theorem readText_escaped (hq : isQuote q = true) (cs rest : List Char) :
    readText q (escaped q cs ++ q :: rest) = (some (text (String.ofList cs)), rest) := by
  simp only [readText, readQuoted_escaped hq, if_true, unescape?_escaped hq, Option.map_some]

theorem readPatternBody_doubled (cs : List Char) (h : rest.head? ≠ some '"') :
    readPatternBody (doubled cs ++ '"' :: rest) = ⟨cs, rest, true⟩ := by
  induction cs with
  | nil => exact readPatternBody_quote h
  | cons c cs ih =>
    by_cases hc : c = '"'
    · subst hc
      change readPatternBody ('"' :: '"' :: (doubled cs ++ '"' :: rest)) = _
      rw [readPatternBody, if_pos rfl, if_pos rfl, ih]
      rfl
    · have hdoubled : doubled (c :: cs) = c :: doubled cs := by simp [doubled, hc]
      rw [hdoubled, List.cons_append, readPatternBody_char hc, ih]
      rfl

theorem readPattern_doubled (cs : List Char) {flags : List Char} (h : ∀ c ∈ flags, isPatternFlag c = true) :
    readPattern (doubled cs ++ '"' :: flags) = (some (pattern (String.ofList cs) (String.ofList flags)), []) := by
  have hhead : flags.head? ≠ some '"' := by
    intro hhead
    have := h '"' (List.mem_of_head? hhead)
    cases this
  simp only [readPattern, readPatternBody_doubled cs hhead, if_true, List.takeWhile_eq_self_iff.2 h,
    List.dropWhile_eq_nil_iff.2 h]

/-- Texts and patterns read back from the literals that quote them: a text between quotes of either sort, a backtick
before each backtick and each such quote, and a pattern between quotes, its quotes doubled and its flags after it.
Each literal is a single token over the whole of its text. -/
theorem scan_quotes (s : String) :
    (∀ q, isQuote q = true →
      let literal := q :: escaped q s.toList ++ [q]
      scan (String.ofList literal) = [⟨some (text s), ⟨0, byteLength literal⟩⟩]) ∧
    ∀ flags : String, (∀ c ∈ flags.toList, isPatternFlag c = true) →
      let literal := 'r' :: '"' :: doubled s.toList ++ '"' :: flags.toList
      scan (String.ofList literal) = [⟨some (pattern s flags), ⟨0, byteLength literal⟩⟩] := by
  refine ⟨fun q hq => ?_, fun flags hflags => ?_⟩
  · have hread : read q (escaped q s.toList ++ [q]) = (some (text s), []) := by
      have htext := readText_escaped hq s.toList []
      rw [String.ofList_toList] at htext
      obtain rfl | rfl := isQuote_iff.1 hq <;> exact htext
    have hlayout : isLayout q = false := by
      obtain rfl | rfl := isQuote_iff.1 hq <;> rfl
    exact scan_single hlayout hread
  · have hread : read 'r' ('"' :: doubled s.toList ++ '"' :: flags.toList) = (some (pattern s flags), []) := by
      have hpattern := readPattern_doubled s.toList hflags
      rwa [String.ofList_toList, String.ofList_toList] at hpattern
    exact scan_single rfl hread

/-- A text of a backtick, a quote and a letter, and a pattern of one quote with two flags. -/
theorem scan_quotes_marks :
    scan "\"\x60\x60\x60\"n\"" = [⟨some (text "\x60\"n"), ⟨0, 7⟩⟩] ∧
    scan "r\"\"\"\"ix" = [⟨some (pattern "\"" "ix"), ⟨0, 7⟩⟩] :=
  ⟨(scan_quotes "\x60\"n").1 '"' rfl, (scan_quotes "\"").2 "ix" (List.all_eq_true.1 rfl)⟩

end Token

/-! ### Digits -/

namespace Decimal

variable {b d n : Nat} {c : Char} {cs : List Char}

theorem casing {l : Char} (h : c.toLower = l) : c = l ∨ c = l.toUpper := by
  subst h
  rw [Char.toUpper_toLower_eq_toUpper]
  by_cases hc : c.isUpper
  · exact .inr (Char.toUpper_eq_of_not_isLower (Char.not_isLower_of_isUpper hc)).symm
  · exact .inl (Char.toLower_eq_of_not_isUpper hc).symm

theorem digitChar_casing (hd : d < 16) (h : c.toLower = d.digitChar) :
    digitValue c = d ∧ Token.isHexDigit c = true ∧ (d < 10 → c.isDigit = true) := by
  have hall : ∀ d < 16, let good c := digitValue c = d ∧ Token.isHexDigit c = true ∧ (d < 10 → c.isDigit = true)
      good d.digitChar ∧ good d.digitChar.toUpper := by decide
  obtain rfl | rfl := casing h
  · exact (hall d hd).1
  · exact (hall d hd).2

theorem toLower_digitChar : ∀ d < 16, d.digitChar.toLower = d.digitChar := by decide

theorem mem_toDigits (hb : 1 < b) (h : c ∈ b.toDigits n) : ∃ d < b, c = d.digitChar := by
  induction n using Nat.strongRecOn with
  | _ n ih =>
    by_cases hn : n < b
    · rw [Nat.toDigits_of_lt_base hn, List.mem_singleton] at h
      exact ⟨n, hn, h⟩
    · rw [Nat.toDigits_of_base_le hb (by omega), List.mem_append, List.mem_singleton] at h
      obtain h | h := h
      · exact ih (n / b) (Nat.div_lt_self (by omega) hb) h
      · exact ⟨n % b, Nat.mod_lt n (by omega), h⟩

theorem valueOf_snoc (b : Nat) (cs : List Char) (c : Char) :
    valueOf b (cs ++ [c]) = b * valueOf b cs + digitValue c := by
  simp [valueOf]

theorem valueOf_zeros (b zeros : Nat) (cs : List Char) :
    valueOf b (List.replicate zeros '0' ++ cs) = valueOf b cs := by
  induction zeros with
  | zero => rfl
  | succ zeros ih =>
    rw [← ih]
    simp [valueOf, List.replicate_succ, show digitValue '0' = 0 from rfl]

theorem valueOf_toDigits (hb : 1 < b) (hle : b ≤ 16) (n : Nat) : valueOf b (b.toDigits n) = n := by
  have hdigit (d : Nat) (hd : d < b) : digitValue d.digitChar = d :=
    (digitChar_casing (by omega) (toLower_digitChar d (by omega))).1
  induction n using Nat.strongRecOn with
  | _ n ih =>
    by_cases hn : n < b
    · rw [Nat.toDigits_of_lt_base hn]
      simp [valueOf, hdigit n hn]
    · rw [Nat.toDigits_of_base_le hb (by omega), valueOf_snoc, ih (n / b) (Nat.div_lt_self (by omega) hb),
        hdigit _ (Nat.mod_lt n (by omega)), Nat.div_add_mod]

theorem valueOf_congr {f : Char → Char} (h : ∀ c ∈ cs, digitValue (f c) = digitValue c) :
    valueOf b (cs.map f) = valueOf b cs := by
  have hvalues : (cs.map f).map digitValue = cs.map digitValue := by simpa using h
  simpa only [valueOf, List.foldl_map] using congrArg (List.foldl (fun m d => b * m + d) 0) hvalues

/-- A number in digits of a base: letters of either case, zeros in front, and lines anywhere after the first digit. -/
structure Spells (b n : Nat) (cs : List Char) : Prop where
  starts : cs.head? ≠ some '_'
  digits : ∃ zeros, (cs.filter (· ≠ '_')).map Char.toLower = List.replicate zeros '0' ++ b.toDigits n

namespace Spells

theorem digit (h : Spells b n cs) (hb : 1 < b) (hc : c ∈ cs) (hline : c ≠ '_') : ∃ d < b, c.toLower = d.digitChar := by
  obtain ⟨zeros, hdigits⟩ := h.digits
  have hmem : c.toLower ∈ List.replicate zeros '0' ++ b.toDigits n := by
    rw [← hdigits]
    exact List.mem_map_of_mem (List.mem_filter.2 ⟨hc, by simpa using hline⟩)
  obtain hzero | hdigit := List.mem_append.1 hmem
  · exact ⟨0, by omega, (List.mem_replicate.1 hzero).2⟩
  · exact mem_toDigits hb hdigit

theorem isHexDigit (h : Spells 16 n cs) (hc : c ∈ cs) (hline : c ≠ '_') : Token.isHexDigit c = true := by
  obtain ⟨d, hd, hlower⟩ := h.digit (by decide) hc hline
  exact (digitChar_casing hd hlower).2.1

theorem isDigit (h : Spells 10 n cs) (hc : c ∈ cs) (hline : c ≠ '_') : c.isDigit = true := by
  obtain ⟨d, hd, hlower⟩ := h.digit (by decide) hc hline
  exact (digitChar_casing (by omega) hlower).2.2 hd

theorem value (h : Spells b n cs) (hb : 1 < b) (hle : b ≤ 16) : valueOf b (cs.filter (· ≠ '_')) = n := by
  obtain ⟨zeros, hdigits⟩ := h.digits
  have hlower : ∀ c ∈ cs.filter (· ≠ '_'), digitValue c.toLower = digitValue c := by
    intro c hc
    obtain ⟨hc, hline⟩ := List.mem_filter.1 hc
    obtain ⟨d, hd, hlower⟩ := h.digit hb hc (by simpa using hline)
    rw [(digitChar_casing (by omega) hlower).1, hlower,
      (digitChar_casing (by omega) (toLower_digitChar d (by omega))).1]
  rw [← valueOf_congr hlower, hdigits, valueOf_zeros, valueOf_toDigits hb hle]

theorem exists_cons (h : Spells b n cs) : ∃ first rest, cs = first :: rest ∧ first ≠ '_' := by
  obtain ⟨zeros, hdigits⟩ := h.digits
  cases cs with
  | nil => exact absurd (List.append_eq_nil_iff.1 hdigits.symm).2 Nat.toDigits_ne_nil
  | cons first rest => exact ⟨first, rest, rfl, fun hline => h.starts (by rw [hline]; rfl)⟩

end Spells

end Decimal

/-! ### Suffixes -/

namespace Token

open Decimal (Spells)

variable {n factor : Nat} {c x : Char} {cs rest suffix : List Char} {kinds : List IntKind}

/-- The suffixes of integers, in small letters, with what they multiply by and the kinds that they leave. -/
def suffixes : List (List Char × Nat × List IntKind) :=
  [([], 1, [.i32, .i64, .u64]), (['u'], 1, [.u32, .u64]), (['l'], 1, [.i64, .u64]), (['u', 'l'], 1, [.u64]),
    (['l', 'u'], 1, [.u64]), (['k', 'b'], 1024, [.i64]), (['m', 'b'], 1024 ^ 2, [.i64]),
    (['g', 'b'], 1024 ^ 3, [.i64]), (['t', 'b'], 1024 ^ 4, [.i64]), (['p', 'b'], 1024 ^ 5, [.i64])]

def Suffix (suffix : List Char) (factor : Nat) (kinds : List IntKind) : Prop :=
  (suffix.map Char.toLower, factor, kinds) ∈ suffixes

instance : Decidable (Suffix suffix factor kinds) := inferInstanceAs (Decidable (_ ∈ suffixes))

def casings : List Char → List (List Char)
  | [] => [[]]
  | c :: cs => (casings cs).flatMap fun w => [c :: w, c.toUpper :: w]

theorem mem_casings (cs : List Char) : cs ∈ casings (cs.map Char.toLower) := by
  induction cs with
  | nil => simp [casings]
  | cons c cs ih =>
    refine List.mem_flatMap.2 ⟨cs, ih, ?_⟩
    simpa using Decimal.casing (c := c) rfl

theorem Suffix.facts (h : Suffix suffix factor kinds) : suffix.all Char.isAlpha = true ∧
    afterDecimal suffix = [] ∧ (factor = 1 → suffix.all hexSuffix = true) ∧ afterHex? '0' suffix = none ∧
    suffix.map Char.toLower ≠ ['f'] ∧ suffix.map Char.toLower ≠ ['d'] ∧
    (magnitude? suffix = none ∧ factor = 1 ∧ (intSuffix? suffix).map Expr.literalKinds = some kinds ∨
      factor ≠ 1 ∧ (magnitude? suffix).map (Nat.pow 2) = some factor ∧ kinds = Expr.literalKinds .magnitude) := by
  have hall : ∀ e ∈ suffixes, ∀ w ∈ casings e.1, w.all Char.isAlpha = true ∧
      afterDecimal w = [] ∧ (e.2.1 = 1 → w.all hexSuffix = true) ∧ afterHex? '0' w = none ∧
      w.map Char.toLower ≠ ['f'] ∧ w.map Char.toLower ≠ ['d'] ∧
      (magnitude? w = none ∧ e.2.1 = 1 ∧ (intSuffix? w).map Expr.literalKinds = some e.2.2 ∨
        e.2.1 ≠ 1 ∧ (magnitude? w).map (Nat.pow 2) = some e.2.1 ∧ e.2.2 = Expr.literalKinds .magnitude) := by
    decide +kernel
  exact hall _ h suffix (mem_casings suffix)

/-! ### Integers -/

theorem split_append {p : Char → Bool} (hcs : ∀ c ∈ cs, p c = true) (hrest : ∀ c ∈ rest, p c = false) :
    (cs ++ rest).takeWhile p = cs ∧ (cs ++ rest).dropWhile p = rest := by
  rw [List.takeWhile_append_of_pos hcs, List.dropWhile_append_of_pos hcs]
  cases rest with
  | nil => simp
  | cons c rest => simp [hrest c List.mem_cons_self]

theorem splitSuffix_append (hcs : ∀ c ∈ cs, c.isAlpha = false) (hs : ∀ c ∈ suffix, c.isAlpha = true) :
    splitSuffix (cs ++ suffix) = (cs, suffix) := by
  have hletters : (cs ++ suffix).reverse.takeWhile Char.isAlpha = suffix.reverse := by
    rw [List.reverse_append]
    exact (split_append (by simpa using hs) (by simpa using hcs)).1
  simp only [splitSuffix, hletters, List.length_append, List.length_reverse, List.reverse_reverse,
    Nat.add_sub_cancel_right, List.take_left]

theorem not_isAlpha_of_isDigit (h : c.isDigit = true) : c.isAlpha = false := by
  cases halpha : c.isAlpha with
  | false => rfl
  | true => rw [not_isDigit_of_isAlpha halpha] at h; cases h

theorem or_line {p : Char → Bool} (h : ∀ {c}, c ∈ cs → c ≠ '_' → p c = true) :
    ∀ c ∈ cs, (p c || c = '_') = true := by
  intro c hc
  by_cases hline : c = '_'
  · simp [hline]
  · simp [h hc hline]

/-- A number that is bounded before it is multiplied and after is one whose product is. -/
theorem bounded?_mul (n : Nat) {factor : Nat} (hfactor : 0 < factor) :
    (bounded? n).bind (fun n => bounded? (n * factor)) = bounded? (n * factor) := by
  unfold bounded?
  by_cases hn : n < integerBound
  · rw [if_pos hn, Option.bind_some]
  · have hle : n ≤ n * factor := Nat.le_mul_of_pos_right n hfactor
    rw [if_neg hn, if_neg (by omega), Option.bind_none]

theorem decimal?_spells (h : Spells 10 n cs) (hs : Suffix suffix factor kinds) :
    ∃ s, Expr.literalKinds s = kinds ∧ decimal? (cs ++ suffix) = (bounded? (n * factor)).map (integer · s) := by
  obtain ⟨hletters, -, -, -, hf, hd, hmeaning⟩ := hs.facts
  have hbody : ∀ c ∈ cs, c.isAlpha = false := by
    intro c hc
    by_cases hline : c = '_'
    · rw [hline]; rfl
    · exact not_isAlpha_of_isDigit (h.isDigit hc hline)
  have hdigits : ∀ c ∈ cs.filter (· ≠ '_'), c.isDigit = true := by
    intro c hc
    obtain ⟨hc, hline⟩ := List.mem_filter.1 hc
    exact h.isDigit hc (by simpa using hline)
  have hreal : (cs.filter (· ≠ '_')).any (fun c => c = '.' || c = 'e' || c = 'E') = false := by
    refine List.any_eq_false.2 fun c hc hmark => ?_
    have := hdigits c hc
    simp only [Bool.or_eq_true, decide_eq_true_eq] at hmark
    obtain (rfl | rfl) | rfl := hmark <;> cases this
  have hread : Decimal.readNat? (cs.filter (· ≠ '_')) = some n := by
    obtain ⟨first, rest, rfl, hfirst⟩ := h.exists_cons
    have hempty : ((first :: rest).filter (· ≠ '_')).isEmpty = false := by simp [hfirst]
    rw [Decimal.readNat?, hempty, List.all_eq_true.2 hdigits, h.value (by decide) (by decide)]
    rfl
  unfold decimal?
  simp only [splitSuffix_append hbody (List.all_eq_true.1 hletters), hreal, Bool.false_eq_true, if_false, hread]
  obtain ⟨hmag, rfl, hkinds⟩ | ⟨-, hmag, rfl⟩ := hmeaning
  · obtain ⟨s, hsuffix, rfl⟩ := Option.map_eq_some_iff.1 hkinds
    refine ⟨s, rfl, ?_⟩
    simp only [hmag, hsuffix, Nat.mul_one, Option.bind_eq_bind, Option.bind_some]
    cases bounded? n <;> rfl
  · obtain ⟨shift, hshift, rfl⟩ := Option.map_eq_some_iff.1 hmag
    refine ⟨.magnitude, rfl, ?_⟩
    simp only [hshift, Option.bind_eq_bind, Option.bind_some, ← bounded?_mul n (Nat.two_pow_pos shift), Nat.pow_eq]
    cases bounded? n with
    | none => rfl
    | some m => exact Option.map_eq_bind.symm

theorem readNumber_spells {first : Char} (h : Spells 10 n (first :: cs)) (hs : Suffix suffix factor kinds) :
    readNumber first (cs ++ suffix) = (decimal? (first :: cs ++ suffix), []) := by
  obtain ⟨-, hdecimal, -, hhex, -⟩ := hs.facts
  have hrest : ∀ c ∈ cs, (c.isDigit || c = '_') = true := fun c hc =>
    or_line h.isDigit c (List.mem_cons_of_mem _ hc)
  have hafter : afterDecimal (cs ++ suffix) = [] := by
    rw [← hdecimal]
    simp only [afterDecimal, dropDigits, List.dropWhile_append_of_pos hrest]
  have hnone : afterHex? first (cs ++ suffix) = none := by
    refine Option.eq_none_iff_forall_ne_some.2 fun rest hrest' => ?_
    obtain ⟨rfl, x, y, tail, hcs, hx, -⟩ := afterHex?_eq_some_iff.1 hrest'
    cases cs with
    | nil => rw [List.nil_append, hhex] at hrest'; cases hrest'
    | cons c w =>
      obtain ⟨rfl, -⟩ := List.cons.inj hcs
      have := hrest c List.mem_cons_self
      obtain rfl | rfl := hx <;> cases this
  have hlonger : ∀ hex, afterHex? first (cs ++ suffix) = some hex →
      (afterDecimal (cs ++ suffix)).length < hex.length := by
    rw [hnone]
    rintro hex ⟨⟩
  rw [readNumber_decimal hlonger, hafter, Text.before_nil]
  rfl

theorem hex?_spells (h : Spells 16 n cs) (hs : Suffix suffix 1 kinds) :
    ∃ s, Expr.literalKinds s = kinds ∧ hex? (cs ++ suffix) = (bounded? n).map (integer · s) := by
  obtain ⟨-, -, hhex, -, -, -, ⟨-, -, hkinds⟩ | ⟨hone, -⟩⟩ := hs.facts
  · obtain ⟨s, hsuffix, rfl⟩ := Option.map_eq_some_iff.1 hkinds
    have hbody : ∀ c ∈ cs, (!hexSuffix c) = true := by
      intro c hc
      have hdigit := or_line h.isHexDigit c hc
      cases hs : hexSuffix c with
      | false => rfl
      | true => rw [not_isHexDigit_of_hexSuffix hs] at hdigit; cases hdigit
    have hsuffixes : ∀ c ∈ suffix, (!hexSuffix c) = false := by simpa using hhex rfl
    obtain ⟨htake, hdrop⟩ := split_append hbody hsuffixes
    have hhex : hex? (cs ++ suffix) =
        (bounded? (Decimal.valueOf 16 (((cs ++ suffix).takeWhile (!hexSuffix ·)).filter (· ≠ '_')))).bind fun n =>
          (intSuffix? ((cs ++ suffix).dropWhile (!hexSuffix ·))).bind fun s => some (integer n s) := rfl
    refine ⟨s, rfl, ?_⟩
    rw [hhex, htake, hdrop, hsuffix, h.value (by decide) (by decide)]
    cases bounded? n <;> rfl
  · exact absurd rfl hone

theorem readNumber_hex_spells (h : Spells 16 n cs) (hs : Suffix suffix 1 kinds) (hx : x = 'x' ∨ x = 'X') :
    readNumber '0' (x :: cs ++ suffix) = (hex? (cs ++ suffix), []) := by
  obtain ⟨-, -, hhex, -⟩ := hs.facts
  have hsuffix : ∀ c ∈ suffix, hexSuffix c = true := List.all_eq_true.1 (hhex rfl)
  have hdigits := or_line h.isHexDigit
  obtain ⟨first, rest, rfl, hfirst⟩ := h.exists_cons
  have hafter : afterHexDigits (rest ++ suffix) = [] := by
    have hrest : ∀ c ∈ rest, (isHexDigit c || c = '_') = true := fun c hc => hdigits c (List.mem_cons_of_mem _ hc)
    rw [afterHexDigits, (split_append hrest fun c hc => not_isHexDigit_of_hexSuffix (hsuffix c hc)).2]
    exact List.dropWhile_eq_nil_iff.2 hsuffix
  have hread : afterHex? '0' (x :: (first :: rest ++ suffix)) = some [] := by
    refine afterHex?_eq_some_iff.2 ⟨rfl, x, first, rest ++ suffix, rfl, hx, ?_, hafter⟩
    exact h.isHexDigit List.mem_cons_self hfirst
  rw [List.cons_append, readNumber_hex hread (Nat.zero_le _), Text.before_nil]
  rfl

/-- The integers that a text may be a literal of, with the kinds that they may take: digits of base ten with any suffix,
or digits of base sixteen with a suffix that does not multiply. -/
inductive Writes : List Char → Nat → List IntKind → Prop
  | decimal {cs suffix : List Char} {n factor : Nat} {kinds : List IntKind} :
      Spells 10 n cs → Suffix suffix factor kinds → Writes (cs ++ suffix) (n * factor) kinds
  | hexadecimal {x : Char} {cs suffix : List Char} {n : Nat} {kinds : List IntKind} :
      x = 'x' ∨ x = 'X' → Spells 16 n cs → Suffix suffix 1 kinds → Writes ('0' :: x :: cs ++ suffix) n kinds

/-- A literal is one lexeme, and a token unless its integer is past the bound of all literals. -/
theorem Writes.scan {m : Nat} (h : Writes cs m kinds) : ∃ s, Expr.literalKinds s = kinds ∧
    scan (String.ofList cs) = [⟨(bounded? m).map (integer · s), ⟨0, byteLength cs⟩⟩] := by
  cases h with
  | @decimal cs suffix n factor _ h hs =>
    obtain ⟨s, hkinds, htoken⟩ := decimal?_spells h hs
    obtain ⟨first, rest, rfl, hfirst⟩ := h.exists_cons
    have hdigit := h.isDigit List.mem_cons_self hfirst
    have hlayout : isLayout first = false := by
      refine Bool.eq_false_iff.2 fun hc => ?_
      simp only [isLayout, Bool.or_eq_true, decide_eq_true_eq] at hc
      obtain ((rfl | rfl) | rfl) | rfl := hc <;> cases hdigit
    have hread : read first (rest ++ suffix) = ((bounded? (n * factor)).map (integer · s), []) := by
      unfold read
      rw [if_pos hdigit, readNumber_spells h hs, htoken]
    exact ⟨s, hkinds, scan_single hlayout hread⟩
  | @hexadecimal x cs suffix _ _ hx h hs =>
    obtain ⟨s, hkinds, htoken⟩ := hex?_spells h hs
    refine ⟨s, hkinds, scan_single rfl ?_⟩
    exact (readNumber_hex_spells h hs hx).trans (by rw [htoken])

end Token

namespace Expr

theorem ofText_token {text : String} {base : Nat} {t : Placed} {e : Except SyntaxError Expr}
    (h : Placed.ofText text base = .ok [t]) (hatom : ofToken? t = some e) : ofText text base = e := by
  obtain ⟨hsign, hif⟩ : Level.sign? [t] = none ∧ Placed.isNext .ifWord [t] = false :=
    Level.starts_of_ofToken? hatom
  have hread : Level.read (Placed.endOf base [t]) .expression [t] = e.map (·, []) := by
    cases e with
    | ok e =>
      have happlied : Level.Takes .applied [t] e [] := .applied (.token hatom) (.bare rfl rfl rfl)
      exact (Level.Takes.plain hif (.operands (.application happlied) (.ends rfl)) rfl).read _
    | error e =>
      -- the fault of the token is the answer at each level above
      have happlied : Level.read (Placed.endOf base [t]) .applied [t] = .error e := by
        rw [Level.read_eq_step, Level.step, Level.read_eq_step, Level.step, hatom]
        rfl
      have hoperand : Level.read (Placed.endOf base [t]) .operand [t] = .error e := by
        rw [Level.read_eq_step, Level.step, hsign, hif]
        exact happlied
      have hoperands : Level.read (Placed.endOf base [t]) (.operands 0) [t] = .error e := by
        rw [Level.read_eq_step, Level.step, hoperand]
        rfl
      rw [Level.read_eq_step, Level.step, hif, hoperands]
      rfl
  rw [ofText, readWhole_eq, h]
  change (Level.read (Placed.endOf base [t]) .expression [t] >>= fun p => finish _ p.1 p.2) = e
  rw [hread]
  cases e <;> rfl

theorem ofText_invalid {cs : List Char} (base : Nat)
    (h : Token.scan (String.ofList cs) = [⟨none, ⟨0, byteLength cs⟩⟩]) :
    ofText (String.ofList cs) base = .error ⟨.invalidToken (String.ofList cs), ⟨base, base + byteLength cs⟩⟩ := by
  have hslice : Text.slice cs 0 (byteLength cs) = cs := by
    have hwhole : Text.slice? cs 0 (byteLength cs) = some cs :=
      Text.slice?_eq_some_iff.2 ⟨[], [], by simp, rfl, Nat.zero_add _⟩
    rw [Text.slice, Nat.min_self, Nat.zero_min, hwhole, Option.getD_some]
  rw [ofText, readWhole, Placed.ofText, h, Placed.ofLexemes, String.toList_ofList, hslice]
  simp only [bind, Except.bind, Span.shift, Nat.zero_add, Nat.add_comm base]

theorem find?_kinds_none {m : Nat} (s : IntSuffix) (h : ¬IntKind.i128.contains m) :
    (literalKinds s).find? (·.contains m) = none :=
  List.find?_eq_none.2 fun _ _ hk => h (IntKind.contains_i128 hk)

theorem integerLiteral?_eq (m : Nat) (s : IntSuffix) :
    integerLiteral? m s = ((literalKinds s).find? (·.contains m)).map (.int m) := by
  unfold integerLiteral?
  by_cases hwide : IntKind.i128.contains m
  · rw [if_pos hwide]
  · rw [if_neg hwide, find?_kinds_none s hwide, Option.map_none]

theorem ofText_writes {cs : List Char} {m : Nat} {kinds : List IntKind} (h : Token.Writes cs m kinds) (base : Nat) :
    ofText (String.ofList cs) base = match kinds.find? (·.contains m) with
      | some k => .ok (.literal (.int m k) ⟨base, base + byteLength cs⟩)
      | none => .error ⟨if m < 2 ^ 128 then .tooLarge else .invalidToken (String.ofList cs),
          ⟨base, base + byteLength cs⟩⟩ := by
  obtain ⟨s, rfl, hscan⟩ := h.scan
  by_cases hm : m < 2 ^ 128
  · have hplaced : Placed.ofText (String.ofList cs) base =
        .ok [⟨.integer m s, ⟨base, base + byteLength cs⟩⟩] := by
      rw [Placed.ofText, hscan, Token.bounded?, if_pos (by exact hm), Option.map_some, Placed.ofLexemes,
        Placed.ofLexemes]
      simp only [bind, Except.bind, pure, Except.pure, Span.shift, Nat.zero_add, Nat.add_comm base]
    refine ofText_token hplaced ?_
    rw [if_pos hm, ofToken?, integerLiteral?_eq]
    cases (literalKinds s).find? (·.contains m) <;> rfl
  · rw [Token.bounded?, if_neg (by exact hm), Option.map_none] at hscan
    have hwide : ¬IntKind.i128.contains m := by
      simp only [IntKind.contains, Bool.and_eq_true, decide_eq_true_eq, IntKind.maxValue, IntKind.modulus,
        IntKind.isSigned, IntKind.bits, if_true, Nat.pow_eq]
      omega
    rw [ofText_invalid base hscan, find?_kinds_none s hwide, if_neg hm]

/-- Integer literals mean their integer. A literal in digits of base ten, with zeros in front, lines between them and a
suffix in letters of either case, or in digits of base sixteen, is the integer of its digits times the power of 1024
that the suffix stands for. Its kind is the first of those of its suffix that holds the integer, and if none does the
whole text is a fault, however many digits it has. Without a suffix, an integer below the bound of unsigned
ones of 64 bits is the value that a document gives it. -/
theorem ofText_integer (base : Nat) :
    (∀ (cs : List Char) (m : Nat) (kinds : List IntKind), Token.Writes cs m kinds →
      let span : Span := ⟨base, base + byteLength cs⟩
      (∀ k, kinds.find? (·.contains m) = some k →
        ofText (String.ofList cs) base = .ok (.literal (.int m k) span)) ∧
      (kinds.find? (·.contains m) = none → ofText (String.ofList cs) base =
        .error ⟨if m < 2 ^ 128 then .tooLarge else .invalidToken (String.ofList cs), span⟩)) ∧
    ∀ (cs : List Char) (n : Nat) (w : World), Token.Writes cs n [.i32, .i64, .u64] → n < 2 ^ 64 →
      ∃ k, ofText (String.ofList cs) base = .ok (.literal (.int n k) ⟨base, base + byteLength cs⟩) ∧
        Json.toValue w (.int n) = (.int n k, w) := by
  refine ⟨fun cs m kinds h => ⟨fun k hk => ?_, fun hnone => ?_⟩, fun cs n w h hn => ?_⟩
  · rw [ofText_writes h, hk]
  · rw [ofText_writes h, hnone]
  · have hu64 : IntKind.u64.contains n = true := by
      simp [IntKind.contains, IntKind.minValue, IntKind.maxValue, IntKind.isSigned, IntKind.modulus, IntKind.bits]
      omega
    rw [ofText_writes h, Json.toValue, Json.intValue]
    by_cases h32 : IntKind.i32.contains n = true
    · exact ⟨.i32, by simp [h32], by simp [h32]⟩
    · by_cases h64 : IntKind.i64.contains n = true
      · exact ⟨.i64, by simp [h32, h64], by simp [h32, h64]⟩
      · exact ⟨.u64, by simp [h32, h64, hu64], by simp [h32, h64]⟩

/-- The bound of signed integers of 32 bits takes the next kind, a magnitude multiplies, and the bound of unsigned
integers of 64 bits, in digits of base sixteen, has no kind. -/
theorem ofText_integer_bounds :
    ofText "02_147_483_648" 3 = .ok (.literal (.int 2147483648 .i64) ⟨3, 17⟩) ∧
    ofText "3kB" 0 = .ok (.literal (.int 3072 .i64) ⟨0, 3⟩) ∧
    ofText "0X1_0000_0000_0000_0000Lu" 0 = .error ⟨.tooLarge, ⟨0, 25⟩⟩ := by
  have hplain : Token.Writes ("02_147_483_648".toList ++ "".toList) (2147483648 * 1) [.i32, .i64, .u64] :=
    .decimal ⟨by decide, 1, by decide +kernel⟩ (by decide)
  have hmagnitude : Token.Writes ("3".toList ++ "kB".toList) (3 * 1024) [.i64] :=
    .decimal ⟨by decide, 0, by decide +kernel⟩ (by decide)
  have hwide : Token.Writes ('0' :: 'X' :: "1_0000_0000_0000_0000".toList ++ "Lu".toList) (2 ^ 64) [.u64] :=
    .hexadecimal (.inr rfl) ⟨by decide, 0, by decide +kernel⟩ (by decide)
  exact ⟨((ofText_integer 3).1 _ _ _ hplain).1 .i64 (by decide),
    ((ofText_integer 0).1 _ _ _ hmagnitude).1 .i64 (by decide), ((ofText_integer 0).1 _ _ _ hwide).2 (by decide)⟩

end Expr

end Stencil
