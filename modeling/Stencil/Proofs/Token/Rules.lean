import Mathlib.Computability.Language
import Stencil.Token.Lexer
/-!
The spellings of tokens as languages, and which of them a text starts with. The longest spelling of any rule
wins. A literal that is opened and not closed has no spelling of its own: an unclosed text breaks off after its
last whole piece, an unclosed pattern takes the whole text, though its first letter alone would be a name.
-/
set_option autoImplicit false

namespace Stencil.Token

open scoped Computability

variable {c : Char} {cs rest w : List Char}

/-! ### Languages -/

def chars (p : Char → Bool) : Language Char := {w | ∃ c, p c = true ∧ w = [c]}

def word (w : List Char) : Language Char := {w}

def digitRun : Language Char := chars Char.isDigit * (chars fun c => c.isDigit || c = '_')∗

def fraction : Language Char := word ['.'] * digitRun

def exponent : Language Char :=
  (chars fun c => c = 'e' || c = 'E') * ((1 + chars fun c => c = '+' || c = '-') *
    (chars Char.isDigit * (chars Char.isDigit)∗))

def hexSuffix (c : Char) : Bool := c = 'u' || c = 'U' || c = 'l' || c = 'L'

/-- A piece of a text literal: a character other than its quote and the backtick, or a backtick with the
character after it. -/
def piece (quote : Char) : Language Char :=
  (chars fun c => c ≠ quote && c ≠ '\x60') + word ['\x60'] * chars (· ≠ '\n')

def quoted (quote : Char) : Language Char := word [quote] * ((piece quote)∗ * word [quote])

def patternBody : Language Char := (chars (· ≠ '"') + word ['"', '"'])∗

inductive Rule where
  | fixed (symbol : Symbol)
  | context
  | decimal
  | hexadecimal
  | text
  | pattern
  | name
deriving DecidableEq

namespace Rule

def language : Rule → Language Char
  | fixed s => word s.text.toList
  | context => word ['$'] * (chars Char.isDigit)∗
  | decimal => digitRun * ((1 + fraction) * ((1 + exponent) * (chars Char.isAlpha)∗))
  | hexadecimal => word ['0'] * ((chars fun c => c = 'x' || c = 'X') *
      (chars isHexDigit * ((chars fun c => isHexDigit c || c = '_')∗ * (chars hexSuffix)∗)))
  | text => quoted '"' + quoted '\''
  | pattern => word ['r', '"'] * (patternBody * (word ['"'] * (chars isPatternFlag)∗))
  | name => chars isNameStart * (chars isNameChar)∗

def rank : Rule → Nat
  | decimal | name => 1
  | _ => 0

def singleQuotes : List Char → List Char
  | '"' :: '"' :: cs => '"' :: singleQuotes cs
  | c :: cs => c :: singleQuotes cs
  | [] => []

/-- The token of a spelling; a number too big, an unknown suffix and an unknown escape have none. -/
def token? : Rule → List Char → Option Token
  | fixed s, _ => some (.fixed s)
  | context, w =>
    let n := Decimal.valueOf 10 (w.drop 1)
    if n < contextBound then some (.context n) else none
  | decimal, w => decimal? w
  | hexadecimal, w => hex? (w.drop 2)
  | text, w => (unescape? (w.drop 1).dropLast).map fun t => .text (String.ofList t)
  | pattern, w =>
    let flags := (w.reverse.takeWhile isPatternFlag).reverse
    let body := (w.drop 2).take (w.length - flags.length - 3)
    some (.pattern (String.ofList (singleQuotes body)) (String.ofList flags))
  | name, w => some (.name (String.ofList w))

end Rule

/-- The longest spelling that a text starts with, by the first rule that has it. -/
structure Longest (text : List Char) (rule : Rule) (spelling : List Char) : Prop where
  spelled : spelling ∈ rule.language
  starts : spelling <+: text
  longest {other : Rule} {w : List Char} : w ∈ other.language → w <+: text → w.length ≤ spelling.length
  first {other : Rule} {w : List Char} : w ∈ other.language → w <+: text → w.length = spelling.length →
    rule.rank ≤ other.rank

def isQuote (c : Char) : Bool := c = '"' || c = '\''

theorem isQuote_iff {c : Char} : isQuote c = true ↔ c = '"' ∨ c = '\'' := by simp [isQuote]

/-- A text that opens a pattern and does not close it: every quote that ends a body is followed by another. -/
def OpensPattern (text : List Char) : Prop :=
  ∃ cs, text = 'r' :: '"' :: cs ∧
    ∀ body ∈ patternBody, ∀ rest, cs = body ++ '"' :: rest → rest.head? = some '"'

/-- The lexeme that a text starts with: its token, if it has one, and its spelling. -/
inductive Lexes : List Char → Option Token → List Char → Prop
  /-- The longest spelling, whether its rule takes it or refuses it. -/
  | matched {text spelling : List Char} {rule : Rule} (hopen : ¬ OpensPattern text)
      (h : Longest text rule spelling) : Lexes text (rule.token? spelling) spelling
  | stray {c : Char} {cs : List Char} (hc : isQuote c = false)
      (h : ∀ (rule : Rule) (w : List Char), w ∈ rule.language → ¬ w <+: c :: cs) : Lexes (c :: cs) none [c]
  /-- A text that is not closed: all whole pieces after its quote. -/
  | unclosedText {quote : Char} {cs body : List Char} (hq : isQuote quote = true)
      (hopen : ∀ w ∈ quoted quote, ¬ w <+: quote :: cs) (hbody : body ∈ (piece quote)∗) (hcs : body <+: cs)
      (longest : ∀ w ∈ (piece quote)∗, w <+: cs → w.length ≤ body.length) :
      Lexes (quote :: cs) none (quote :: body)
  | unclosedPattern {text : List Char} (h : OpensPattern text) : Lexes text none text

/-! ### Words of the languages -/

variable {L : Language Char} {p : Char → Bool} {f : List Char → List Char} {d quote : Char}

@[simp] theorem mem_chars : w ∈ chars p ↔ ∃ c, p c = true ∧ w = [c] := Iff.rfl

@[simp] theorem mem_word {v : List Char} : w ∈ word v ↔ w = v := Iff.rfl

theorem mem_word_mul {v : List Char} : w ∈ word v * L ↔ ∃ u ∈ L, w = v ++ u := by
  simp [Language.mem_mul, eq_comm]

theorem mem_chars_mul : w ∈ chars p * L ↔ ∃ c, p c = true ∧ ∃ u ∈ L, w = c :: u := by
  simp only [Language.mem_mul, mem_chars]
  constructor
  · rintro ⟨_, ⟨c, hc, rfl⟩, u, hu, rfl⟩
    exact ⟨c, hc, u, hu, rfl⟩
  · rintro ⟨c, hc, u, hu, rfl⟩
    exact ⟨[c], ⟨c, hc, rfl⟩, u, hu, rfl⟩

theorem mem_one_add_mul {F : Language Char} : w ∈ (1 + F) * L ↔ w ∈ L ∨ w ∈ F * L := by
  rw [add_mul, one_mul, Language.mem_add]

theorem mem_star_cons {u : List Char} (hu : u ∈ L) (hw : w ∈ L∗) : u ++ w ∈ L∗ := by
  rw [← Language.one_add_self_mul_kstar_eq_kstar, Language.mem_add]
  exact .inr (Language.append_mem_mul hu hw)

theorem star_induction {P : List Char → Prop} (hw : w ∈ L∗) (nil : P [])
    (cons : ∀ u ∈ L, ∀ w, P w → P (u ++ w)) : P w := by
  obtain ⟨ws, rfl, hws⟩ := Language.mem_kstar.1 hw
  clear hw
  induction ws with
  | nil => exact nil
  | cons u ws ih =>
    exact cons u (hws u List.mem_cons_self) _ (ih fun y hy => hws y (List.mem_cons_of_mem u hy))

theorem mem_star_chars : w ∈ (chars p)∗ ↔ ∀ c ∈ w, p c = true := by
  constructor
  · intro hw
    refine star_induction (P := fun w => ∀ c ∈ w, p c = true) hw (by simp) ?_
    rintro _ ⟨c, hc, rfl⟩ w ih d hd
    rcases List.mem_cons.1 hd with rfl | hd
    · exact hc
    · exact ih d hd
  · intro h
    induction w with
    | nil => exact Language.nil_mem_kstar _
    | cons c w ih =>
      exact mem_star_cons (u := [c]) ⟨c, h c List.mem_cons_self, rfl⟩
        (ih fun d hd => h d (List.mem_cons_of_mem c hd))

theorem head_of_mem_star (h : c :: w ∈ (chars p)∗) : p c = true :=
  mem_star_chars.1 h c List.mem_cons_self

theorem takeWhile_mem_star (p : Char → Bool) (cs : List Char) : cs.takeWhile p ∈ (chars p)∗ :=
  mem_star_chars.2 (List.all_eq_true.1 List.all_takeWhile)

theorem dropWhile_append_of_mem (h : w ∈ (chars p)∗) (rest : List Char) : (w ++ rest).dropWhile p = rest.dropWhile p :=
  List.dropWhile_append_of_pos (mem_star_chars.1 h)

/-! ### Taking the longest word -/

/-- A function that takes the longest word of a language off the start of every text. -/
structure Greedy (L : Language Char) (f : List Char → List Char) : Prop where
  word (cs : List Char) : ∃ w ∈ L, cs = w ++ f cs
  longest {w : List Char} : w ∈ L → ∀ rest, (f (w ++ rest)).length ≤ rest.length

theorem Greedy.suffix (h : Greedy L f) (cs : List Char) : f cs <:+ cs := by
  obtain ⟨w, -, hw⟩ := h.word cs
  exact ⟨w, hw.symm⟩

theorem Greedy.length_front (h : Greedy L f) (hw : w ∈ L) (hp : w <+: cs) : w.length + (f cs).length ≤ cs.length := by
  obtain ⟨rest, rfl⟩ := hp
  have := h.longest hw rest
  rw [List.length_append]
  omega

theorem Greedy.mem_of_append (h : Greedy L f) (hcs : cs = w ++ f cs) : w ∈ L := by
  obtain ⟨v, hv, hcs'⟩ := h.word cs
  obtain rfl : v = w := List.append_cancel_right (hcs'.symm.trans hcs)
  exact hv

def Avoids (L : Language Char) (p : Char → Bool) : Prop := ∀ c w, c :: w ∈ L → p c = false

theorem dropWhile_avoids (hf : Greedy L f)
    (h : Avoids L p) (hw : w ∈ L) (rest : List Char) : (f ((w ++ rest).dropWhile p)).length ≤ rest.length := by
  cases w with
  | nil => exact (hf.suffix _).length_le.trans (length_dropWhile_le p rest)
  | cons c w =>
    rw [List.cons_append, List.dropWhile_cons_of_neg (by simp [h c w hw])]
    exact hf.longest hw rest

theorem greedy_one : Greedy 1 id where
  word cs := ⟨[], Language.nil_mem_one, rfl⟩
  longest {w} hw rest := by
    obtain rfl := (Language.mem_one w).1 hw
    exact Nat.le_refl _

theorem Greedy.star_mul (hf : Greedy L f) (h : Avoids L p) : Greedy ((chars p)∗ * L) fun cs => f (cs.dropWhile p) where
  word cs := by
    obtain ⟨w, hw, hcs⟩ := hf.word (cs.dropWhile p)
    refine ⟨cs.takeWhile p ++ w, Language.append_mem_mul (takeWhile_mem_star p cs) hw, ?_⟩
    rw [List.append_assoc, ← hcs, List.takeWhile_append_dropWhile]
  longest {w} hw rest := by
    obtain ⟨a, ha, b, hb, rfl⟩ := Language.mem_mul.1 hw
    rw [List.append_assoc, dropWhile_append_of_mem ha]
    exact dropWhile_avoids hf h hb rest

theorem greedy_star (p : Char → Bool) : Greedy (chars p)∗ (List.dropWhile p) := by
  have h := greedy_one.star_mul (p := p) fun c w hw => by simp [Language.mem_one] at hw
  rwa [mul_one] at h

theorem avoids_star {q : Char → Bool} (h : ∀ c, q c = true → p c = false) : Avoids (chars q)∗ p :=
  fun _ _ hw => h _ (head_of_mem_star hw)

/-! ### Numbers -/

theorem isDigit_iff : c.isDigit = true ↔ 48 ≤ c.toNat ∧ c.toNat ≤ 57 := by
  simp only [Char.isDigit, Bool.and_eq_true, decide_eq_true_eq, ge_iff_le, UInt32.le_iff_toNat_le]
  rfl

theorem isAlpha_iff : c.isAlpha = true ↔ (65 ≤ c.toNat ∧ c.toNat ≤ 90) ∨ (97 ≤ c.toNat ∧ c.toNat ≤ 122) := by
  unfold Char.isAlpha Char.isUpper Char.isLower
  simp only [Bool.or_eq_true, Bool.and_eq_true, decide_eq_true_eq, ge_iff_le, UInt32.le_iff_toNat_le]
  rfl

theorem not_isDigit_of_isAlpha (h : c.isAlpha = true) : c.isDigit = false := by
  rw [isAlpha_iff] at h
  rw [← Bool.not_eq_true, isDigit_iff]
  omega

theorem afterFraction_of_ne (h : cs.head? ≠ some '.') : afterFraction cs = cs := by
  unfold afterFraction
  split
  · simp at h
  · rfl

theorem afterFraction_word (cs : List Char) : ∃ w, (w = [] ∨ w ∈ fraction) ∧ cs = w ++ afterFraction cs := by
  fun_cases afterFraction cs with
  | case1 d cs hd =>
    have hrun : d :: cs.takeWhile (fun c => c.isDigit || c = '_') ∈ digitRun :=
      mem_chars_mul.2 ⟨d, hd, _, takeWhile_mem_star _ cs, rfl⟩
    refine ⟨'.' :: d :: cs.takeWhile fun c => c.isDigit || c = '_', .inr (mem_word_mul.2 ⟨_, hrun, rfl⟩), ?_⟩
    simp [dropDigits, List.takeWhile_append_dropWhile]
  | case2 | case3 => exact ⟨[], .inl rfl, rfl⟩

theorem Greedy.fraction_mul (hf : Greedy L f)
    (hdot : Avoids L (· = '.')) (hdigit : Avoids L fun c => c.isDigit || c = '_') :
    Greedy ((1 + fraction) * L) fun cs => f (afterFraction cs) where
  word cs := by
    obtain ⟨v, hv, hcs⟩ := afterFraction_word cs
    obtain ⟨w, hw, hrest⟩ := hf.word (afterFraction cs)
    refine ⟨v ++ w, mem_one_add_mul.2 ?_, by rw [List.append_assoc, ← hrest, ← hcs]⟩
    rcases hv with rfl | hv
    · exact .inl hw
    · exact .inr (Language.append_mem_mul hv hw)
  longest {w} hw rest := by
    rcases mem_one_add_mul.1 hw with hw | hw
    · cases w with
      | nil => exact (hf.suffix _).length_le.trans (length_afterFraction_le rest)
      | cons c w =>
        have hc : c ≠ '.' := by simpa using hdot c w hw
        rw [afterFraction_of_ne (by simpa using hc)]
        exact hf.longest hw rest
    · obtain ⟨v, hv, u, hu, rfl⟩ := Language.mem_mul.1 hw
      obtain ⟨_, hrun, rfl⟩ := mem_word_mul.1 hv
      obtain ⟨d, hd, ds, hds, rfl⟩ := mem_chars_mul.1 hrun
      have hcut : afterFraction ('.' :: d :: (ds ++ (u ++ rest))) =
          (u ++ rest).dropWhile fun c => c.isDigit || c = '_' := by
        rw [afterFraction, if_pos hd, dropDigits, dropWhile_append_of_mem hds]
      simp only [List.cons_append, List.nil_append, List.append_assoc, hcut]
      exact dropWhile_avoids hf hdigit hu rest

theorem afterExponent_word (cs : List Char) : ∃ w, (w = [] ∨ w ∈ exponent) ∧ cs = w ++ afterExponent cs := by
  fun_cases afterExponent cs with
  | case2 e cs he d ds hsign hd =>
    have hrun : d :: ds.takeWhile Char.isDigit ∈ chars Char.isDigit * (chars Char.isDigit)∗ :=
      mem_chars_mul.2 ⟨d, hd, _, takeWhile_mem_star _ ds, rfl⟩
    obtain ⟨s, hs, hcs⟩ : ∃ s, s ∈ 1 + (chars fun c => c = '+' || c = '-') ∧ cs = s ++ d :: ds := by
      rw [← hsign]
      fun_cases afterSign cs with
      | case1 | case3 => exact ⟨[], .inl rfl, rfl⟩
      | case2 s cs hs => exact ⟨[s], .inr ⟨s, hs, rfl⟩, rfl⟩
    refine ⟨e :: (s ++ d :: ds.takeWhile Char.isDigit), .inr ?_, ?_⟩
    · exact mem_chars_mul.2 ⟨e, he, _, Language.append_mem_mul hs hrun, rfl⟩
    · simp [hcs, List.takeWhile_append_dropWhile]
  | case1 | case3 | case4 | case5 => exact ⟨[], .inl rfl, rfl⟩

theorem afterExponent_exponent (hw : w ∈ exponent) (rest : List Char) :
    afterExponent (w ++ rest) = rest.dropWhile Char.isDigit := by
  obtain ⟨e, he, _, htail, rfl⟩ := mem_chars_mul.1 hw
  obtain ⟨s, hs, _, hrun, rfl⟩ := Language.mem_mul.1 htail
  obtain ⟨d, hd, ds, hds, rfl⟩ := mem_chars_mul.1 hrun
  have hsign : afterSign (s ++ d :: ds ++ rest) = d :: (ds ++ rest) := by
    rcases hs with rfl | ⟨s, hs, rfl⟩
    · have hd' : ¬ ((d = '+' || d = '-') = true) := by
        rintro h
        rcases (by simpa using h : d = '+' ∨ d = '-') with rfl | rfl <;> simp at hd
      simp [afterSign, hd']
    · simp only [List.cons_append, List.nil_append, afterSign, hs, if_true]
  rw [List.cons_append, afterExponent, if_pos he, hsign]
  simp only [hd, if_true, dropWhile_append_of_mem hds]

/-- Of letters an exponent takes at most the last one: a sign or a digit follows its letter. -/
theorem afterExponent_letters (hw : w ∈ (chars Char.isAlpha)∗) (rest : List Char) :
    afterExponent (w ++ rest) = w ++ rest ∨ (afterExponent (w ++ rest)).length ≤ rest.length := by
  cases w with
  | nil => exact .inr (length_afterExponent_le rest)
  | cons e w =>
    rw [List.cons_append, afterExponent]
    split
    · split
      · next d ds hsign =>
        split
        · next hd =>
          cases w with
          | nil =>
            have hds := length_dropWhile_le Char.isDigit ds
            have hlen := length_afterSign_le rest
            rw [List.nil_append] at hsign
            rw [hsign, List.length_cons] at hlen
            exact .inr (by omega)
          | cons l w =>
            have hl : l.isAlpha = true := mem_star_chars.1 hw l (by simp)
            have hplus : ¬ ((l = '+' || l = '-') = true) := by
              intro h
              rcases (by simpa using h : l = '+' ∨ l = '-') with rfl | rfl <;> cases hl
            rw [List.cons_append, afterSign, if_neg hplus] at hsign
            obtain ⟨rfl, -⟩ := List.cons.inj hsign
            exact absurd hd (by simp [not_isDigit_of_isAlpha hl])
        · exact .inl rfl
      · exact .inl rfl
    · exact .inl rfl

theorem greedy_exponent : Greedy ((1 + exponent) * (chars Char.isAlpha)∗)
    fun cs => (afterExponent cs).dropWhile Char.isAlpha where
  word cs := by
    obtain ⟨v, hv, hcs⟩ := afterExponent_word cs
    refine ⟨v ++ (afterExponent cs).takeWhile Char.isAlpha, mem_one_add_mul.2 ?_, ?_⟩
    · rcases hv with rfl | hv
      · exact .inl (takeWhile_mem_star _ _)
      · exact .inr (Language.append_mem_mul hv (takeWhile_mem_star _ _))
    · rw [List.append_assoc, List.takeWhile_append_dropWhile, ← hcs]
  longest {w} hw rest := by
    have hdrop := length_dropWhile_le Char.isAlpha
    rcases mem_one_add_mul.1 hw with hw | hw
    · rcases afterExponent_letters hw rest with h | h
      · rw [h, dropWhile_append_of_mem hw]
        exact hdrop rest
      · exact (hdrop _).trans h
    · obtain ⟨v, hv, u, hu, rfl⟩ := Language.mem_mul.1 hw
      rw [List.append_assoc, afterExponent_exponent hv]
      exact dropWhile_avoids (greedy_star _) (avoids_star fun c => not_isDigit_of_isAlpha) hu rest

def decimalTail : Language Char :=
  (chars fun c => c.isDigit || c = '_')∗ * ((1 + fraction) * ((1 + exponent) * (chars Char.isAlpha)∗))

theorem mem_decimal : w ∈ Rule.decimal.language ↔ ∃ d, d.isDigit = true ∧ ∃ u ∈ decimalTail, w = d :: u := by
  rw [Rule.language, digitRun, mul_assoc, mem_chars_mul]
  rfl

theorem head_exponent (h : c :: w ∈ (1 + exponent) * (chars Char.isAlpha)∗) : c.isAlpha = true := by
  rcases mem_one_add_mul.1 h with h | h
  · exact head_of_mem_star h
  · rw [exponent, mul_assoc] at h
    obtain ⟨e, he, u, -, hu⟩ := mem_chars_mul.1 h
    obtain ⟨rfl, -⟩ := List.cons.inj hu
    rcases (by simpa using he : c = 'e' ∨ c = 'E') with rfl | rfl <;> rfl

theorem avoids_exponent (h : ∀ c, c.isAlpha = true → p c = false) :
    Avoids ((1 + exponent) * (chars Char.isAlpha)∗) p := fun c _ hw => h c (head_exponent hw)

theorem not_digitRun_of_isAlpha (h : c.isAlpha = true) : (c.isDigit || c = '_') = false := by
  have hc : c ≠ '_' := by rintro rfl; exact absurd h (by decide)
  simp [not_isDigit_of_isAlpha h, hc]

theorem greedy_decimal : Greedy decimalTail afterDecimal := by
  refine ((greedy_exponent.fraction_mul (avoids_exponent fun c hc => ?_)
    (avoids_exponent fun c => not_digitRun_of_isAlpha)).star_mul ?_)
  · have : c ≠ '.' := by rintro rfl; exact absurd hc (by decide)
    simpa using this
  · intro c w hw
    rcases mem_one_add_mul.1 hw with hw | hw
    · exact not_digitRun_of_isAlpha (head_exponent hw)
    · rw [fraction, mul_assoc] at hw
      obtain ⟨u, -, hu⟩ := mem_word_mul.1 hw
      obtain ⟨rfl, -⟩ := List.cons.inj hu
      rfl

/-- What follows the digits and the suffix of a hexadecimal spelling. -/
def afterHexDigits (cs : List Char) : List Char :=
  (cs.dropWhile fun c => isHexDigit c || c = '_').dropWhile fun c => c = 'u' || c = 'U' || c = 'l' || c = 'L'

theorem afterHex?_eq_some_iff : afterHex? d cs = some rest ↔
    d = '0' ∧ ∃ x h tail, cs = x :: h :: tail ∧ (x = 'x' ∨ x = 'X') ∧ isHexDigit h = true ∧
      afterHexDigits tail = rest := by
  constructor
  · intro h
    unfold afterHex? at h
    split at h
    · next hd =>
      split at h
      · next x y tail =>
        split at h
        · next hxy =>
          simp only [Bool.and_eq_true, Bool.or_eq_true, decide_eq_true_eq] at hxy
          exact ⟨hd, x, y, tail, rfl, hxy.1, hxy.2, Option.some.inj h⟩
        · cases h
      · cases h
    · cases h
  · rintro ⟨rfl, x, y, tail, rfl, hx, hy, rfl⟩
    simp [afterHex?, afterHexDigits, hx, hy]

theorem readNumber_hex {hex : List Char} (h : afterHex? d cs = some hex) (hle : hex.length ≤ (afterDecimal cs).length) :
    readNumber d cs = (hex? ((Text.before cs hex).drop 1), hex) := by
  simp only [readNumber, h, hle, if_true]

theorem readNumber_decimal (h : ∀ hex, afterHex? d cs = some hex → (afterDecimal cs).length < hex.length) :
    readNumber d cs = (decimal? (d :: Text.before cs (afterDecimal cs)), afterDecimal cs) := by
  cases hx : afterHex? d cs with
  | none => simp only [readNumber, hx]
  | some hex => simp only [readNumber, hx, if_neg (Nat.not_le.2 (h hex hx))]

theorem hex_or_decimal (d : Char) (cs : List Char) :
    (∃ hex, afterHex? d cs = some hex ∧ hex.length ≤ (afterDecimal cs).length) ∨
      ∀ hex, afterHex? d cs = some hex → (afterDecimal cs).length < hex.length := by
  by_cases h : ∃ hex, afterHex? d cs = some hex ∧ hex.length ≤ (afterDecimal cs).length
  · exact .inl h
  · exact .inr fun hex hx => Nat.lt_of_not_le fun hle => h ⟨hex, hx, hle⟩

def hexTail : Language Char := (chars fun c => isHexDigit c || c = '_')∗ * (chars hexSuffix)∗

theorem mem_hexadecimal : w ∈ Rule.hexadecimal.language ↔
    ∃ x h, (x = 'x' ∨ x = 'X') ∧ isHexDigit h = true ∧ ∃ u ∈ hexTail, w = '0' :: x :: h :: u := by
  simp only [Rule.language, mem_word_mul, mem_chars_mul]
  constructor
  · rintro ⟨_, ⟨x, hx, _, ⟨h, hh, u, hu, rfl⟩, rfl⟩, rfl⟩
    exact ⟨x, h, by simpa using hx, hh, u, hu, rfl⟩
  · rintro ⟨x, h, hx, hh, u, hu, rfl⟩
    exact ⟨_, ⟨x, by simpa using hx, _, ⟨h, hh, u, hu, rfl⟩, rfl⟩, rfl⟩

theorem not_isHexDigit_of_hexSuffix (h : hexSuffix c = true) : (isHexDigit c || c = '_') = false := by
  have hc : ((c = 'u' ∨ c = 'U') ∨ c = 'l') ∨ c = 'L' := by simpa [hexSuffix] using h
  rcases hc with ((rfl | rfl) | rfl) | rfl <;> rfl

theorem greedy_hex : Greedy hexTail afterHexDigits :=
  (greedy_star hexSuffix).star_mul (avoids_star fun _ => not_isHexDigit_of_hexSuffix)

/-! ### Text and patterns -/

def Stretch.after (w : List Char) (s : Stretch) : Stretch := { s with raw := w ++ s.raw }

theorem isQuote_ne (h : isQuote quote = true) : quote ≠ '\x60' := by
  obtain rfl | rfl := isQuote_iff.1 h <;> decide

theorem readQuoted_quote (h : quote ≠ '\x60') (cs : List Char) : readQuoted quote (quote :: cs) = ⟨[], cs, true⟩ := by
  cases cs <;> simp [readQuoted, h]

theorem readQuoted_char (hc : c ≠ '\x60') (hq : c ≠ quote) (cs : List Char) :
    readQuoted quote (c :: cs) = (readQuoted quote cs).push c := by
  cases cs <;> simp [readQuoted, hc, hq, Stretch.push]

theorem readQuoted_pieces (hw : w ∈ (piece quote)∗) (rest : List Char) :
    readQuoted quote (w ++ rest) = (readQuoted quote rest).after w := by
  refine star_induction (P := fun w => readQuoted quote (w ++ rest) = (readQuoted quote rest).after w) hw rfl ?_
  rintro u hu w ih
  rcases (Language.mem_add _ _ _).1 hu with ⟨c, hc, rfl⟩ | hu
  · obtain ⟨hq, hb⟩ : c ≠ quote ∧ c ≠ '\x60' := by simpa using hc
    rw [List.append_assoc, List.singleton_append, readQuoted_char hb hq, ih]
    rfl
  · obtain ⟨_, ⟨d, hd, rfl⟩, rfl⟩ := mem_word_mul.1 hu
    have hd' : d ≠ '\n' := by simpa using hd
    simp only [List.cons_append, List.nil_append, readQuoted, hd', if_true, if_false, ih]
    rfl

theorem readQuoted_raw (quote : Char) (cs : List Char) : (readQuoted quote cs).raw ∈ (piece quote)∗ := by
  have hchar : ∀ c, c ≠ '\x60' → c ≠ quote → [c] ∈ piece quote := fun c hb hq =>
    (Language.mem_add _ _ _).2 (.inl ⟨c, by simp [hb, hq], rfl⟩)
  fun_induction readQuoted quote cs with
  | case1 | case2 | case3 | case5 | case7 => exact Language.nil_mem_kstar _
  | case4 c hb hq => exact mem_star_cons (hchar c hb hq) (Language.nil_mem_kstar _)
  | case6 d cs hd ih =>
    refine mem_star_cons (u := ['\x60', d]) ((Language.mem_add _ _ _).2 (.inr ?_)) ih
    exact mem_word_mul.2 ⟨[d], ⟨d, by simpa using hd, rfl⟩, rfl⟩
  | case8 c d cs hb hq ih => exact mem_star_cons (hchar c hb hq) ih

theorem readQuoted_split (quote : Char) (cs : List Char) : cs = (readQuoted quote cs).raw ++
      if (readQuoted quote cs).closed then quote :: (readQuoted quote cs).rest else (readQuoted quote cs).rest := by
  fun_induction readQuoted quote cs with
  | case1 | case2 | case3 | case4 | case5 | case7 => rfl
  | case6 d cs hd ih => exact congrArg ('\x60' :: d :: ·) ih
  | case8 c d cs hb hq ih => exact congrArg (c :: ·) ih

theorem readPatternBody_quote (h : cs.head? ≠ some '"') : readPatternBody ('"' :: cs) = ⟨[], cs, true⟩ := by
  cases cs with
  | nil => rfl
  | cons d cs =>
    have hd : d ≠ '"' := fun hd => h (by rw [hd]; rfl)
    simp [readPatternBody, hd]

theorem readPatternBody_char (hc : c ≠ '"') (cs : List Char) :
    readPatternBody (c :: cs) = (readPatternBody cs).push c := by
  cases cs <;> simp [readPatternBody, hc, Stretch.push]

theorem singleQuotes_cons (hc : c ≠ '"') (cs : List Char) :
    Rule.singleQuotes (c :: cs) = c :: Rule.singleQuotes cs := by
  rw [Rule.singleQuotes]
  rintro cs' rfl
  exact absurd rfl hc

theorem readPatternBody_body (hw : w ∈ patternBody) (rest : List Char) :
    readPatternBody (w ++ rest) = (readPatternBody rest).after (Rule.singleQuotes w) := by
  refine star_induction (P := fun w => readPatternBody (w ++ rest) =
    (readPatternBody rest).after (Rule.singleQuotes w)) hw rfl ?_
  rintro u hu w ih
  rcases (Language.mem_add _ _ _).1 hu with ⟨c, hc, rfl⟩ | rfl
  · have hc' : c ≠ '"' := by simpa using hc
    rw [List.append_assoc, List.singleton_append, readPatternBody_char hc', ih, List.singleton_append,
      singleQuotes_cons hc']
    rfl
  · simp only [List.cons_append, List.nil_append, readPatternBody, if_true, ih]
    rfl

theorem readPatternBody_spelled (cs : List Char) :
    ∃ body ∈ patternBody, (readPatternBody cs).raw = Rule.singleQuotes body ∧
      ((readPatternBody cs).closed = true → cs = body ++ '"' :: (readPatternBody cs).rest ∧
        (readPatternBody cs).rest.head? ≠ some '"') ∧
      ((readPatternBody cs).closed = false → (readPatternBody cs).rest = []) := by
  have hchar : ∀ c, c ≠ '"' → [c] ∈ chars (· ≠ '"') + word ['"', '"'] := fun c hc =>
    (Language.mem_add _ _ _).2 (.inl ⟨c, by simpa using hc, rfl⟩)
  have hquotes : ['"', '"'] ∈ chars (· ≠ '"') + word ['"', '"'] := (Language.mem_add _ _ _).2 (.inr rfl)
  fun_induction readPatternBody cs with
  | case1 => exact ⟨[], Language.nil_mem_kstar _, rfl, fun h => absurd h Bool.false_ne_true, fun _ => rfl⟩
  | case2 => exact ⟨[], Language.nil_mem_kstar _, rfl, fun _ => ⟨rfl, by simp⟩, fun h => rfl⟩
  | case3 c hc =>
    exact ⟨[c], mem_star_cons (hchar c hc) (Language.nil_mem_kstar _), (singleQuotes_cons hc []).symm,
      fun h => absurd h Bool.false_ne_true, fun _ => rfl⟩
  | case4 cs ih =>
    obtain ⟨body, hbody, hraw, hclosed, hopen⟩ := ih
    refine ⟨'"' :: '"' :: body, mem_star_cons hquotes hbody, ?_, fun h => ?_, hopen⟩
    · exact congrArg ('"' :: ·) hraw
    · exact ⟨congrArg ('"' :: '"' :: ·) (hclosed h).1, (hclosed h).2⟩
  | case5 d cs hd =>
    exact ⟨[], Language.nil_mem_kstar _, rfl, fun _ => ⟨rfl, by simpa using hd⟩, fun h => absurd h.symm Bool.false_ne_true⟩
  | case6 c d cs hc ih =>
    obtain ⟨body, hbody, hraw, hclosed, hopen⟩ := ih
    refine ⟨c :: body, mem_star_cons (hchar c hc) hbody, ?_, fun h => ?_, hopen⟩
    · rw [singleQuotes_cons hc]
      exact congrArg (c :: ·) hraw
    · exact ⟨congrArg (c :: ·) (hclosed h).1, (hclosed h).2⟩

theorem opensPattern_iff : OpensPattern ('r' :: '"' :: cs) ↔ (readPatternBody cs).closed = false := by
  constructor
  · rintro ⟨_, hcs, hopen⟩
    obtain rfl : cs = _ := by simpa using hcs
    obtain ⟨body, hbody, -, hclosed, -⟩ := readPatternBody_spelled cs
    refine Bool.eq_false_iff.2 fun h => ?_
    obtain ⟨hcs, hhead⟩ := hclosed h
    exact hhead (hopen body hbody _ hcs)
  · intro h
    refine ⟨cs, rfl, fun body hbody rest hcs => ?_⟩
    by_contra hhead
    rw [hcs, readPatternBody_body hbody, readPatternBody_quote hhead] at h
    cases h

end Stencil.Token
