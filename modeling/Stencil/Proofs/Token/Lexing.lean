import Stencil.Proofs.Token.Rules
import Stencil.Proofs.Text.Cut
/-!
Reading by the rules. What is read at the start of a text is the lexeme that the rules give there. The longest
spelling is the longest in every front of the text that holds it, so a token that ends within the front is read from
the front alone.
-/
set_option autoImplicit false

namespace Stencil.Token

open scoped Computability

variable {c : Char} {cs more rest w : List Char}

/-! ### First characters -/

namespace Rule

def starts : Rule → Char → Bool
  | fixed s, c => s.text.toList.head? = some c
  | context, c => c = '$'
  | decimal, c => c.isDigit
  | hexadecimal, c => c = '0'
  | text, c => isQuote c
  | pattern, c => c = 'r'
  | name, c => isNameStart c

theorem exists_cons {rule : Rule} (hw : w ∈ rule.language) : ∃ c u, w = c :: u ∧ rule.starts c = true := by
  cases rule with
  | fixed s =>
    obtain rfl : w = s.text.toList := hw
    cases hs : s.text.toList with
    | nil => cases s <;> exact absurd hs (by decide)
    | cons c u => exact ⟨c, u, rfl, by simp [starts, hs]⟩
  | context =>
    obtain ⟨u, -, rfl⟩ := mem_word_mul.1 hw
    exact ⟨'$', u, rfl, rfl⟩
  | decimal =>
    obtain ⟨d, hd, u, -, rfl⟩ := mem_decimal.1 hw
    exact ⟨d, u, rfl, hd⟩
  | hexadecimal =>
    obtain ⟨x, h, -, -, u, -, rfl⟩ := mem_hexadecimal.1 hw
    exact ⟨'0', _, rfl, rfl⟩
  | text =>
    rcases (Language.mem_add _ _ _).1 hw with hw | hw
    · obtain ⟨u, -, rfl⟩ := mem_word_mul.1 hw
      exact ⟨'"', u, rfl, rfl⟩
    · obtain ⟨u, -, rfl⟩ := mem_word_mul.1 hw
      exact ⟨'\'', u, rfl, rfl⟩
  | pattern =>
    obtain ⟨u, -, rfl⟩ := mem_word_mul.1 hw
    exact ⟨'r', _, rfl, rfl⟩
  | name =>
    obtain ⟨c, hc, u, -, rfl⟩ := mem_chars_mul.1 hw
    exact ⟨c, u, rfl, hc⟩

theorem starts_of_front {rule : Rule} (hw : w ∈ rule.language) (hp : w <+: c :: cs) :
    rule.starts c = true ∧ ∃ u, w = c :: u ∧ u <+: cs := by
  obtain ⟨d, u, rfl, hd⟩ := exists_cons hw
  obtain ⟨rest, hrest⟩ := hp
  obtain ⟨rfl, rfl⟩ := List.cons.inj hrest
  exact ⟨hd, u, rfl, rest, rfl⟩

/-- Symbols start with no digit, context mark or quote, and with a letter if they are words. -/
theorem fixed_starts {s : Symbol} (h : (fixed s).starts c = true) :
    c.isDigit = false ∧ c ≠ '$' ∧ isQuote c = false ∧ isNameStart c = s.isKeyword := by
  have hc : s.text.toList.head? = some c := by simpa [starts] using h
  cases s <;> (obtain rfl := Option.some.inj hc; decide)

end Rule

variable {spelling u : List Char} {s : Symbol} {rule : Rule} {t : Token}

/-- A spelling is the longest one if it is so among the rules that share its first character. -/
theorem longest_cons (hs : c :: spelling ∈ rule.language) (hp : spelling <+: cs)
    (h : ∀ other : Rule, other.starts c = true → ∀ u, c :: u ∈ other.language → u <+: cs →
      u.length ≤ spelling.length ∧ (u.length = spelling.length → rule.rank ≤ other.rank)) :
    Longest (c :: cs) rule (c :: spelling) where
  spelled := hs
  starts := List.cons_prefix_cons.2 ⟨rfl, hp⟩
  longest {other w} hw hpw := by
    obtain ⟨hstarts, u, rfl, hu⟩ := Rule.starts_of_front hw hpw
    exact Nat.succ_le_succ (h other hstarts u hw hu).1
  first {other w} hw hpw hlen := by
    obtain ⟨hstarts, u, rfl, hu⟩ := Rule.starts_of_front hw hpw
    exact (h other hstarts u hw hu).2 (Nat.succ.inj hlen)

theorem not_opensPattern (h : c = 'r' → cs.head? ≠ some '"') : ¬ OpensPattern (c :: cs) := by
  rintro ⟨tail, htail, -⟩
  obtain ⟨rfl, rfl⟩ := List.cons.inj htail
  exact h rfl rfl

theorem before_of_append (h : cs = w ++ rest) : Text.before cs rest = w := by
  subst h
  exact Text.before_append w rest

/-! ### Numbers and contexts -/

theorem not_isDigit_of_isNameStart (h : isNameStart c = true) : c.isDigit = false := by
  rcases (by simpa [isNameStart] using h : c.isAlpha = true ∨ c = '_') with h | rfl
  · exact not_isDigit_of_isAlpha h
  · rfl

theorem starts_digit (hc : c.isDigit = true) {rule : Rule} (h : rule.starts c = true) :
    rule = .decimal ∨ rule = .hexadecimal := by
  cases rule with
  | decimal => exact .inl rfl
  | hexadecimal => exact .inr rfl
  | fixed s => exact absurd hc (by simp [(Rule.fixed_starts h).1])
  | context | pattern =>
    obtain rfl := of_decide_eq_true h
    cases hc
  | text => obtain rfl | rfl := isQuote_iff.1 h <;> cases hc
  | name => exact absurd hc (by simp [not_isDigit_of_isNameStart h])

theorem hex_front (hu : c :: u ∈ Rule.hexadecimal.language) (hp : u <+: cs) :
    ∃ hex, afterHex? c cs = some hex ∧ u.length + hex.length ≤ cs.length := by
  obtain ⟨x, h, hx, hh, v, hv, hcons⟩ := mem_hexadecimal.1 hu
  obtain ⟨rfl, rfl⟩ := List.cons.inj hcons
  obtain ⟨rest, rfl⟩ := hp
  refine ⟨afterHexDigits (v ++ rest), afterHex?_eq_some_iff.2 ⟨rfl, x, h, v ++ rest, rfl, hx, hh, rfl⟩, ?_⟩
  have := greedy_hex.longest hv rest
  simp only [List.length_append, List.length_cons]
  omega

/-- A decimal number that stands here ends no later than the one that is read. -/
theorem length_decimal_le (hu : c :: u ∈ Rule.decimal.language) (hp : u <+: cs) :
    u.length + (afterDecimal cs).length ≤ cs.length := by
  obtain ⟨d, -, v, hv, hcons⟩ := mem_decimal.1 hu
  obtain ⟨rfl, rfl⟩ := List.cons.inj hcons
  exact greedy_decimal.length_front hv hp

theorem lexes_hexadecimal {hex : List Char} (hc : c.isDigit = true) (hx : afterHex? c cs = some hex)
    (hle : hex.length ≤ (afterDecimal cs).length) (hcs : cs = spelling ++ hex) :
    Lexes (c :: cs) (hex? ((Text.before cs hex).drop 1)) (c :: spelling) := by
  have hopen : ¬ OpensPattern (c :: cs) := not_opensPattern (by rintro rfl; cases hc)
  have hlen := congrArg List.length hcs
  rw [List.length_append] at hlen
  have htoken : hex? ((Text.before cs hex).drop 1) = Rule.hexadecimal.token? (c :: spelling) := by
    rw [before_of_append hcs]
    rfl
  obtain ⟨rfl, x, h, tail, rfl, hx', hh, rfl⟩ := afterHex?_eq_some_iff.1 hx
  rw [htoken]
  obtain ⟨v, hv, htail⟩ := greedy_hex.word tail
  obtain rfl : spelling = x :: h :: v := by
    refine List.append_cancel_right (hcs.symm.trans ?_)
    rw [List.cons_append, List.cons_append, ← htail]
  refine .matched hopen (longest_cons (mem_hexadecimal.2 ⟨x, h, hx', hh, v, hv, rfl⟩) ⟨_, hcs.symm⟩ ?_)
  rintro other hother u hu hp
  refine ⟨?_, fun _ => Nat.zero_le _⟩
  rcases starts_digit hc hother with rfl | rfl
  · have := length_decimal_le hu hp
    omega
  · obtain ⟨hex, hx', hlen'⟩ := hex_front hu hp
    obtain rfl := Option.some.inj (hx.symm.trans hx')
    omega

theorem lexes_decimal (hc : c.isDigit = true)
    (hlt : ∀ hex, afterHex? c cs = some hex → (afterDecimal cs).length < hex.length)
    (hcs : cs = spelling ++ afterDecimal cs) :
    Lexes (c :: cs) (decimal? (c :: Text.before cs (afterDecimal cs))) (c :: spelling) := by
  have hopen : ¬ OpensPattern (c :: cs) := not_opensPattern (by rintro rfl; cases hc)
  have hlen := congrArg List.length hcs
  rw [List.length_append] at hlen
  have htoken : decimal? (c :: Text.before cs (afterDecimal cs)) = Rule.decimal.token? (c :: spelling) := by
    rw [before_of_append hcs]
    rfl
  rw [htoken]
  have hs : c :: spelling ∈ Rule.decimal.language :=
    mem_decimal.2 ⟨c, hc, spelling, greedy_decimal.mem_of_append hcs, rfl⟩
  refine .matched hopen (longest_cons hs ⟨_, hcs.symm⟩ ?_)
  rintro other hother u hu hp
  rcases starts_digit hc hother with rfl | rfl
  · have := length_decimal_le hu hp
    exact ⟨by omega, fun _ => Nat.le_refl _⟩
  · obtain ⟨hex, hx, hlen'⟩ := hex_front hu hp
    have := hlt hex hx
    exact ⟨by omega, fun h => by omega⟩

/-- The longer of the two readings of a number, and a hexadecimal one of two that are equally long. -/
theorem lexes_number (hc : c.isDigit = true)
    (hcs : cs = spelling ++ (readNumber c cs).2) : Lexes (c :: cs) (readNumber c cs).1 (c :: spelling) := by
  rcases hex_or_decimal c cs with ⟨hex, hx, hle⟩ | hlt
  · rw [readNumber_hex hx hle] at hcs ⊢
    exact lexes_hexadecimal hc hx hle hcs
  · rw [readNumber_decimal hlt] at hcs ⊢
    exact lexes_decimal hc hlt hcs

theorem starts_context (h : rule.starts '$' = true) : rule = .context := by
  cases rule with
  | context => rfl
  | fixed s => exact absurd rfl (Rule.fixed_starts h).2.1
  | decimal | hexadecimal | text | pattern | name => cases h

theorem lexes_context (hcs : cs = spelling ++ (readContext cs).2) :
    Lexes ('$' :: cs) (readContext cs).1 ('$' :: spelling) := by
  have hspelling : spelling = cs.takeWhile Char.isDigit := by
    refine List.append_cancel_right (hcs.symm.trans ?_)
    rw [readContext, List.takeWhile_append_dropWhile]
  have htoken : (readContext cs).1 = Rule.context.token? ('$' :: spelling) := by rw [hspelling]; rfl
  rw [htoken]
  have hs : '$' :: spelling ∈ Rule.context.language :=
    mem_word_mul.2 ⟨spelling, hspelling ▸ takeWhile_mem_star _ cs, rfl⟩
  refine .matched (not_opensPattern (by rintro ⟨⟩)) (longest_cons hs ⟨_, hcs.symm⟩ ?_)
  rintro other hother u hu hp
  obtain rfl := starts_context hother
  obtain ⟨v, hv, hcons⟩ := mem_word_mul.1 hu
  obtain rfl : u = v := (List.cons.inj hcons).2
  have hlen := congrArg List.length hcs
  have := (greedy_star Char.isDigit).length_front hv hp
  rw [List.length_append] at hlen
  simp only [readContext] at hlen
  exact ⟨by omega, fun _ => Nat.le_refl _⟩

/-! ### Text and patterns -/

theorem starts_quote (hc : isQuote c = true) {rule : Rule} (h : rule.starts c = true) : rule = .text := by
  cases rule with
  | text => rfl
  | fixed s => rw [(Rule.fixed_starts h).2.2.1] at hc; cases hc
  | context | decimal | hexadecimal | pattern | name => obtain rfl | rfl := isQuote_iff.1 hc <;> cases h

theorem readQuoted_word {quote : Char} (hq : isQuote quote = true) {u : List Char}
    (hu : quote :: u ∈ quoted quote) (rest : List Char) :
    ∃ body, u = body ++ [quote] ∧ readQuoted quote (u ++ rest) = ⟨body, rest, true⟩ := by
  obtain ⟨v, hv, hcons⟩ := mem_word_mul.1 hu
  obtain rfl : u = v := (List.cons.inj hcons).2
  obtain ⟨body, hbody, _, rfl, rfl⟩ := Language.mem_mul.1 hv
  refine ⟨body, rfl, ?_⟩
  rw [List.append_assoc, readQuoted_pieces hbody, List.singleton_append, readQuoted_quote (isQuote_ne hq)]
  simp [Stretch.after]

theorem mem_quoted_of_mem_text (hu : c :: u ∈ Rule.text.language) : c :: u ∈ quoted c := by
  rcases (Language.mem_add _ _ _).1 hu with h | h
  · obtain ⟨v, -, hcons⟩ := mem_word_mul.1 h
    obtain ⟨rfl, -⟩ := List.cons.inj hcons
    exact h
  · obtain ⟨v, -, hcons⟩ := mem_word_mul.1 h
    obtain ⟨rfl, -⟩ := List.cons.inj hcons
    exact h

theorem mem_text_of_mem_quoted (hc : isQuote c = true) {u : List Char} (hu : u ∈ quoted c) :
    u ∈ Rule.text.language := by
  obtain rfl | rfl := isQuote_iff.1 hc
  · exact (Language.mem_add _ _ _).2 (.inl hu)
  · exact (Language.mem_add _ _ _).2 (.inr hu)

theorem lexes_text (hc : isQuote c = true) (hcs : cs = spelling ++ (readText c cs).2) :
    Lexes (c :: cs) (readText c cs).1 (c :: spelling) := by
  cases hs : readQuoted c cs with
  | mk raw rest closed =>
    have hraw : raw ∈ (piece c)∗ := by simpa [hs] using readQuoted_raw c cs
    have hall := readQuoted_split c cs
    rw [hs] at hall
    cases closed with
    | true =>
      simp only [readText, hs, if_true] at hcs ⊢
      obtain rfl : spelling = raw ++ [c] := by
        refine List.append_cancel_right (hcs.symm.trans ?_)
        simpa using hall
      have htoken : (unescape? raw).map (fun t => text (String.ofList t)) =
          Rule.text.token? (c :: (raw ++ [c])) := by
        simp [Rule.token?]
      rw [htoken]
      have hspelled : c :: (raw ++ [c]) ∈ Rule.text.language :=
        mem_text_of_mem_quoted hc (mem_word_mul.2 ⟨_, Language.append_mem_mul hraw rfl, rfl⟩)
      refine .matched (not_opensPattern ?_) (longest_cons hspelled ⟨rest, hcs.symm⟩ ?_)
      · rintro rfl
        cases hc
      · rintro other hother u hu ⟨rest', rfl⟩
        obtain rfl := starts_quote hc hother
        obtain ⟨body, rfl, hread⟩ := readQuoted_word hc (mem_quoted_of_mem_text hu) rest'
        obtain ⟨rfl, -⟩ := Stretch.mk.inj (hread.symm.trans hs)
        exact ⟨Nat.le_refl _, fun _ => Nat.le_refl _⟩
    | false =>
      simp only [readText, hs, Bool.false_eq_true, if_false] at hcs ⊢
      obtain rfl : spelling = raw := List.append_cancel_right (hcs.symm.trans hall)
      refine .unclosedText hc ?_ hraw ⟨rest, hcs.symm⟩ ?_
      · intro w hw hp
        obtain ⟨-, u, rfl, rest', rfl⟩ := Rule.starts_of_front (mem_text_of_mem_quoted hc hw) hp
        obtain ⟨body, -, hread⟩ := readQuoted_word hc hw rest'
        cases (Stretch.mk.inj (hread.symm.trans hs)).2.2
      · rintro w hw ⟨rest', rfl⟩
        rw [readQuoted_pieces hw] at hs
        have := congrArg (fun s => s.raw.length) hs
        simp only [Stretch.after, List.length_append] at this
        omega

theorem pattern_token? {body flags : List Char} (hflags : ∀ c ∈ flags, isPatternFlag c = true) :
    Rule.pattern.token? ('r' :: '"' :: (body ++ '"' :: flags)) =
      some (.pattern (String.ofList (Rule.singleQuotes body)) (String.ofList flags)) := by
  have hrev : ('r' :: '"' :: (body ++ '"' :: flags)).reverse = flags.reverse ++ '"' :: ('r' :: '"' :: body).reverse := by
    simp
  have htake : (('r' :: '"' :: (body ++ '"' :: flags)).reverse.takeWhile isPatternFlag).reverse = flags := by
    rw [hrev, List.takeWhile_append_of_pos (by simpa using hflags)]
    have hquote : ('"' :: ('r' :: '"' :: body).reverse).takeWhile isPatternFlag = [] :=
      List.takeWhile_cons_of_neg (by decide)
    rw [hquote, List.append_nil, List.reverse_reverse]
  have hlen : ('r' :: '"' :: (body ++ '"' :: flags)).length - flags.length - 3 = body.length := by
    simp only [List.length_cons, List.length_append]
    omega
  simp only [Rule.token?, htake, hlen, List.drop_succ_cons, List.drop_zero, List.take_left]

theorem starts_nameStart (hc : isNameStart c = true) {rule : Rule} (h : rule.starts c = true) :
    rule = .name ∨ rule = .pattern ∨ ∃ s : Symbol, s.isKeyword = true ∧ rule = .fixed s := by
  cases rule with
  | name => exact .inl rfl
  | pattern => exact .inr (.inl rfl)
  | fixed s => exact .inr (.inr ⟨s, (Rule.fixed_starts h).2.2.2 ▸ hc, rfl⟩)
  | context | hexadecimal =>
    obtain rfl := of_decide_eq_true h
    cases hc
  | decimal => exact absurd h (by simp [Rule.starts, not_isDigit_of_isNameStart hc])
  | text => obtain rfl | rfl := isQuote_iff.1 h <;> cases hc

theorem keyword_mem_name (h : s.isKeyword = true) : s.text.toList ∈ Rule.name.language := by
  have hwords : ∀ s ∈ Symbol.keywords,
      (s.text.toList.head?.any isNameStart && (s.text.toList.drop 1).all isNameChar) = true := by decide
  have hall := hwords s (List.contains_iff_mem.1 h)
  cases hs : s.text.toList with
  | nil => rw [hs] at hall; cases hall
  | cons c u =>
    simp only [hs, List.head?_cons, Option.any_some, List.drop_succ_cons, List.drop_zero, Bool.and_eq_true] at hall
    exact mem_chars_mul.2 ⟨c, hall.1, u, mem_star_chars.2 (List.all_eq_true.1 hall.2), rfl⟩

/-- No name and no keyword reaches past the name characters of a text. -/
theorem length_name_le (hu : c :: u ∈ Rule.name.language) (hp : u <+: cs) :
    u.length ≤ (cs.takeWhile isNameChar).length := by
  obtain ⟨d, -, v, hv, hcons⟩ := mem_chars_mul.1 hu
  obtain rfl : u = v := (List.cons.inj hcons).2
  have hlen := congrArg List.length (List.takeWhile_append_dropWhile (p := isNameChar) (l := cs))
  have := (greedy_star isNameChar).length_front hv hp
  rw [List.length_append] at hlen
  omega

/-- No spelling of a pattern reaches past the flags after its closing quote: one that closes at the first of two
quotes has no flags. -/
theorem length_pattern_le (hu : 'r' :: u ∈ Rule.pattern.language) (hp : u <+: '"' :: cs) :
    u.length + ((readPatternBody cs).rest.dropWhile isPatternFlag).length ≤ cs.length + 1 := by
  obtain ⟨v, hv, hcons⟩ := mem_word_mul.1 hu
  obtain rfl : u = '"' :: v := (List.cons.inj hcons).2
  obtain ⟨body, hbody, tail, htail, rfl⟩ := Language.mem_mul.1 hv
  obtain ⟨flags, hflags, rfl⟩ := mem_word_mul.1 htail
  obtain ⟨rest, hrest⟩ := hp
  obtain rfl : cs = body ++ ('"' :: (flags ++ rest)) := by simpa using (List.cons.inj hrest).2.symm
  rw [readPatternBody_body hbody]
  by_cases hhead : (flags ++ rest).head? = some '"'
  · obtain ⟨rest', hrest'⟩ := List.head?_eq_some_iff.1 hhead
    obtain rfl : flags = [] := by
      cases flags with
      | nil => rfl
      | cons f flags =>
        obtain rfl : f = '"' := by simpa using hhead
        cases head_of_mem_star hflags
    obtain rfl : rest = '"' :: rest' := hrest'
    have hle := length_readPatternBody_le rest'
    have hdrop := length_dropWhile_le isPatternFlag (readPatternBody rest').rest
    simp only [List.nil_append, Stretch.after, readPatternBody, if_true, Stretch.push, List.length_cons,
      List.length_append, List.length_nil]
    omega
  · rw [readPatternBody_quote hhead]
    have hdrop := length_dropWhile_le isPatternFlag rest
    simp only [Stretch.after, dropWhile_append_of_mem hflags, List.length_cons, List.length_append]
    simp only [List.length_nil]
    omega

theorem lexes_pattern (hcs : '"' :: cs = spelling ++ (readPattern cs).2) :
    Lexes ('r' :: '"' :: cs) (readPattern cs).1 ('r' :: spelling) := by
  obtain ⟨body, hbody, hraw, hclosed, hopen⟩ := readPatternBody_spelled cs
  cases hc : (readPatternBody cs).closed with
  | false =>
    simp only [readPattern, hc, hopen hc, Bool.false_eq_true, if_false, List.append_nil] at hcs ⊢
    rw [← hcs]
    exact .unclosedPattern (opensPattern_iff.2 hc)
  | true =>
    obtain ⟨hsplit, hhead⟩ := hclosed hc
    simp only [readPattern, hc, if_true, hraw] at hcs ⊢
    have hlong : ∀ u, 'r' :: u ∈ Rule.pattern.language → u <+: '"' :: cs →
        u.length + ((readPatternBody cs).rest.dropWhile isPatternFlag).length ≤ cs.length + 1 :=
      fun u => length_pattern_le
    generalize (readPatternBody cs).rest = rest at *
    have hflags : rest.takeWhile isPatternFlag ∈ (chars isPatternFlag)∗ := takeWhile_mem_star _ _
    obtain rfl : spelling = '"' :: (body ++ '"' :: rest.takeWhile isPatternFlag) := by
      refine List.append_cancel_right (hcs.symm.trans ?_)
      rw [hsplit]
      simp [List.takeWhile_append_dropWhile]
    rw [← pattern_token? (mem_star_chars.1 hflags)]
    have hspelled : 'r' :: '"' :: (body ++ '"' :: rest.takeWhile isPatternFlag) ∈ Rule.pattern.language :=
      mem_word_mul.2 ⟨_, Language.append_mem_mul hbody (mem_word_mul.2 ⟨_, hflags, rfl⟩), rfl⟩
    refine .matched (by simp [opensPattern_iff, hc]) (longest_cons hspelled ⟨_, hcs.symm⟩ ?_)
    rintro other hother u hu hp
    refine ⟨?_, fun _ => Nat.zero_le _⟩
    have hname : 'r' :: u ∈ Rule.name.language → u.length = 0 := fun hu =>
      Nat.le_zero.1 (length_name_le hu hp)
    rcases starts_nameStart (c := 'r') rfl hother with rfl | rfl | ⟨s, hs, rfl⟩
    · rw [hname hu]
      exact Nat.zero_le _
    · have hlen := congrArg List.length hcs
      have := hlong u hu hp
      rw [List.length_append, List.length_cons] at hlen
      omega
    · obtain hu : 'r' :: u = s.text.toList := hu
      rw [hname (hu ▸ keyword_mem_name hs)]
      exact Nat.zero_le _

/-! ### Names and symbols -/

theorem ofWord?_eq_some {word : String} (h : Symbol.ofWord? word = some s) : s.isKeyword = true ∧ s.text = word :=
  ⟨List.contains_iff_mem.2 (List.mem_of_find?_eq_some h), by simpa using List.find?_some h⟩

theorem ofWord?_keyword (h : s.isKeyword = true) : Symbol.ofWord? s.text ≠ none := fun hn => by
  have := List.find?_eq_none.1 hn s (List.contains_iff_mem.1 h)
  simp at this

theorem rule_of_nameStart (hc : isNameStart c = true) (hquote : c = 'r' → cs.head? ≠ some '"') {rule : Rule}
    (h : rule.starts c = true) {u : List Char} (hu : c :: u ∈ rule.language) (hp : u <+: cs) :
    rule = .name ∨ ∃ s : Symbol, s.isKeyword = true ∧ rule = .fixed s := by
  rcases starts_nameStart hc h with hname | rfl | hkeyword
  · exact .inl hname
  · obtain ⟨v, -, hcons⟩ := mem_word_mul.1 hu
    obtain ⟨rfl, rfl⟩ := List.cons.inj hcons
    obtain ⟨rest, rfl⟩ := hp
    exact absurd rfl (hquote rfl)
  · exact .inr hkeyword

theorem lexes_name (hc : isNameStart c = true) (hcs : cs = spelling ++ (readName c cs).2)
    (hquote : c = 'r' → cs.head? ≠ some '"') : Lexes (c :: cs) (readName c cs).1 (c :: spelling) := by
  obtain rfl : spelling = cs.takeWhile isNameChar := by
    refine List.append_cancel_right (hcs.symm.trans ?_)
    rw [readName, List.takeWhile_append_dropWhile]
  have hname : c :: cs.takeWhile isNameChar ∈ Rule.name.language :=
    mem_chars_mul.2 ⟨c, hc, _, takeWhile_mem_star _ cs, rfl⟩
  -- A keyword is a name too.
  have hlong : ∀ other : Rule, other.starts c = true → ∀ u, c :: u ∈ other.language → u <+: cs →
      u.length ≤ (cs.takeWhile isNameChar).length := by
    rintro other hother u hu hp
    rcases rule_of_nameStart hc hquote hother hu hp with rfl | ⟨s, hs, rfl⟩
    · exact length_name_le hu hp
    · obtain hu : c :: u = s.text.toList := hu
      exact length_name_le (hu ▸ keyword_mem_name hs) hp
  have hp : cs.takeWhile isNameChar <+: cs := List.takeWhile_prefix _
  cases hw : Symbol.ofWord? (String.ofList (c :: cs.takeWhile isNameChar)) with
  | some s =>
    have htoken : (readName c cs).1 = (Rule.fixed s).token? (c :: cs.takeWhile isNameChar) := by
      simp only [readName, hw]
      rfl
    rw [htoken]
    have hs : c :: cs.takeWhile isNameChar ∈ (Rule.fixed s).language := by
      have := congrArg String.toList (ofWord?_eq_some hw).2
      rw [String.toList_ofList] at this
      exact this.symm
    exact .matched (not_opensPattern hquote)
      (longest_cons hs hp fun other hother u hu hpu => ⟨hlong other hother u hu hpu, fun _ => Nat.zero_le _⟩)
  | none =>
    have htoken : (readName c cs).1 = Rule.name.token? (c :: cs.takeWhile isNameChar) := by
      simp only [readName, hw]
      rfl
    rw [htoken]
    refine .matched (not_opensPattern hquote) (longest_cons hname hp fun other hother u hu hpu =>
      ⟨hlong other hother u hu hpu, fun hlen => ?_⟩)
    have hsame : u = cs.takeWhile isNameChar :=
      List.IsPrefix.eq_of_length (List.prefix_of_prefix_length_le hpu hp (Nat.le_of_eq hlen)) hlen
    rcases rule_of_nameStart hc hquote hother hu hpu with rfl | ⟨s, hs, rfl⟩
    · exact Nat.le_refl _
    · obtain hu : c :: u = s.text.toList := hu
      refine absurd ?_ (ofWord?_keyword hs)
      rw [← hsame, hu, String.ofList_toList] at hw
      exact hw

theorem pair?_text {d : Char} (h : pair? c d = some s) : s.text.toList = [c, d] := by
  unfold pair? at h
  split at h <;> cases h <;> rfl

theorem single?_text (h : single? c = some s) : s.text.toList = [c] := by
  unfold single? at h
  split at h <;> cases h <;> rfl

theorem single_or_pair (h : s.isKeyword = false) :
    (∃ c, s.text.toList = [c] ∧ single? c = some s) ∨ ∃ c d, s.text.toList = [c, d] ∧ pair? c d = some s := by
  cases s with
  | trueWord | falseWord | nullWord | ifWord | elseWord | andWord | orWord | notWord | piWord | infinityWord =>
    cases h
  | plus | minus | star | slash | percent | bang | tilde | amp | pipe | caret | eq | lt | gt | question | colon
  | dot | comma | lParen | rParen | lBracket | rBracket => exact .inl ⟨_, rfl, rfl⟩
  | ampAmp | pipePipe | eqEq | bangEq | matched | unmatched | ltEq | gtEq | coalesce => exact .inr ⟨_, _, rfl, rfl⟩

structure Plain (c : Char) : Prop where
  digit : c.isDigit = false
  context : c ≠ '$'
  quote : isQuote c = false
  name : isNameStart c = false

theorem Plain.starts (hc : Plain c) {rule : Rule} (h : rule.starts c = true) :
    ∃ s : Symbol, s.isKeyword = false ∧ rule = .fixed s := by
  cases rule with
  | fixed s => exact ⟨s, (Rule.fixed_starts h).2.2.2 ▸ hc.name, rfl⟩
  | context => exact absurd (by simpa [Rule.starts] using h) hc.context
  | decimal => exact absurd h (by simp [Rule.starts, hc.digit])
  | hexadecimal =>
    obtain rfl := of_decide_eq_true h
    cases hc.digit
  | text => exact absurd h (by simp [Rule.starts, hc.quote])
  | pattern =>
    obtain rfl := of_decide_eq_true h
    cases hc.name
  | name => exact absurd h (by simp [Rule.starts, hc.name])

theorem Plain.spelled (hc : Plain c) {rule : Rule} (hw : w ∈ rule.language) (hp : w <+: c :: cs) :
    (∃ s, w = [c] ∧ single? c = some s) ∨ ∃ s d rest, w = [c, d] ∧ cs = d :: rest ∧ pair? c d = some s := by
  obtain ⟨hstarts, u, rfl, hu⟩ := Rule.starts_of_front hw hp
  obtain ⟨s, hs, rfl⟩ := hc.starts hstarts
  have htext : c :: u = s.text.toList := hw
  rcases single_or_pair hs with ⟨c', hc', hsingle⟩ | ⟨c', d, hc', hpair⟩
  · obtain ⟨rfl, rfl⟩ := List.cons.inj (htext.trans hc')
    exact .inl ⟨s, rfl, hsingle⟩
  · obtain ⟨rfl, rfl⟩ := List.cons.inj (htext.trans hc')
    obtain ⟨rest, rfl⟩ := hu
    exact .inr ⟨s, d, rest, rfl, rfl, hpair⟩

theorem Plain.not_opensPattern (hc : Plain c) : ¬ OpensPattern (c :: cs) :=
  Token.not_opensPattern (by rintro rfl; cases hc.name)

theorem Plain.lexes_single (hc : Plain c) (hpair : ∀ d rest, cs = d :: rest → pair? c d = none) :
    Lexes (c :: cs) ((single? c).map fixed) [c] := by
  cases hs : single? c with
  | none =>
    refine .stray hc.quote fun rule w hw hp => ?_
    rcases hc.spelled hw hp with ⟨s, -, hsome⟩ | ⟨s, d, rest, -, hcs, hsome⟩
    · rw [hs] at hsome
      cases hsome
    · rw [hpair d rest hcs] at hsome
      cases hsome
  | some s =>
    have hlong : Longest (c :: cs) (.fixed s) [c] := by
      refine ⟨(single?_text hs).symm, ⟨cs, rfl⟩, fun hw hp => ?_, fun _ _ _ => Nat.zero_le _⟩
      rcases hc.spelled hw hp with ⟨-, rfl, -⟩ | ⟨s, d, rest, -, hcs, hsome⟩
      · exact Nat.le_refl _
      · rw [hpair d rest hcs] at hsome
        cases hsome
    exact .matched hc.not_opensPattern hlong

theorem Plain.lexes_symbol (hc : Plain c) (hcs : cs = spelling ++ (readSymbol c cs).2) :
    Lexes (c :: cs) (readSymbol c cs).1 (c :: spelling) := by
  have hnil : cs = spelling ++ cs → spelling = [] := fun h => List.append_left_eq_self.1 h.symm
  cases cs with
  | nil =>
    obtain rfl : spelling = [] := hnil hcs
    exact hc.lexes_single nofun
  | cons d rest =>
    cases hp : pair? c d with
    | none =>
      simp only [readSymbol, hp] at hcs ⊢
      obtain rfl : spelling = [] := hnil hcs
      refine hc.lexes_single fun d' rest' h => ?_
      obtain ⟨rfl, -⟩ := List.cons.inj h
      exact hp
    | some s =>
      simp only [readSymbol, hp] at hcs ⊢
      obtain rfl : spelling = [d] := List.append_cancel_right hcs.symm
      have hlong : Longest (c :: d :: rest) (.fixed s) [c, d] := by
        refine ⟨(pair?_text hp).symm, ⟨rest, rfl⟩, fun hw hpre => ?_, fun _ _ _ => Nat.zero_le _⟩
        rcases hc.spelled hw hpre with ⟨-, rfl, -⟩ | ⟨-, -, -, rfl, -, -⟩
        · exact Nat.le_succ 1
        · exact Nat.le_refl _
      exact .matched hc.not_opensPattern hlong

theorem lexes_read (hcs : cs = spelling ++ (read c cs).2) : Lexes (c :: cs) (read c cs).1 (c :: spelling) := by
  unfold read at hcs ⊢
  by_cases hd : c.isDigit = true
  · rw [if_pos hd] at hcs ⊢
    exact lexes_number hd hcs
  rw [if_neg hd] at hcs ⊢
  by_cases hx : c = '$'
  · rw [if_pos hx] at hcs ⊢
    exact hx ▸ lexes_context hcs
  rw [if_neg hx] at hcs ⊢
  by_cases hq : (c = '"' || c = '\'') = true
  · rw [if_pos hq] at hcs ⊢
    exact lexes_text hq hcs
  rw [if_neg hq] at hcs ⊢
  by_cases hn : isNameStart c = true
  · rw [if_pos hn] at hcs ⊢
    split at hcs
    · exact lexes_pattern hcs
    · next hno =>
      refine lexes_name hn hcs fun hr hhead => ?_
      obtain ⟨rest, rfl⟩ := List.head?_eq_some_iff.1 hhead
      exact hno rest hr rfl
  rw [if_neg hn] at hcs ⊢
  exact Plain.lexes_symbol ⟨by simpa using hd, hx, by simpa [isQuote] using hq, by simpa using hn⟩ hcs

/-! ### What is left of a text -/

theorem readNumber_suffix (d : Char) (cs : List Char) : (readNumber d cs).2 <:+ cs := by
  rcases hex_or_decimal d cs with ⟨hex, hx, hle⟩ | h
  · rw [readNumber_hex hx hle]
    obtain ⟨-, x, y, tail, rfl, -, -, rfl⟩ := afterHex?_eq_some_iff.1 hx
    exact (greedy_hex.suffix tail).trans ⟨[x, y], rfl⟩
  · rw [readNumber_decimal h]
    exact greedy_decimal.suffix cs

theorem readText_suffix (quote : Char) (cs : List Char) : (readText quote cs).2 <:+ cs := by
  have h : (readQuoted quote cs).rest <:+ cs := by
    have hsplit := readQuoted_split quote cs
    split at hsplit
    · exact ⟨(readQuoted quote cs).raw ++ [quote], by simpa using hsplit.symm⟩
    · exact ⟨_, hsplit.symm⟩
  unfold readText
  simp only []
  split <;> exact h

theorem readPattern_suffix (cs : List Char) : (readPattern cs).2 <:+ cs := by
  obtain ⟨body, -, -, hclosed, hopen⟩ := readPatternBody_spelled cs
  cases hc : (readPatternBody cs).closed with
  | true =>
    simp only [readPattern, hc, if_true]
    exact (List.dropWhile_suffix _).trans ⟨body ++ ['"'], by simpa using (hclosed hc).1.symm⟩
  | false =>
    simp only [readPattern, hc, hopen hc]
    exact List.nil_suffix

theorem readSymbol_suffix (c : Char) (cs : List Char) : (readSymbol c cs).2 <:+ cs := by
  unfold readSymbol
  split
  · split
    · exact List.suffix_cons _ _
    · exact List.suffix_refl _
  · exact List.suffix_refl _

theorem read_suffix (c : Char) (cs : List Char) : (read c cs).2 <:+ cs := by
  unfold read
  split
  · exact readNumber_suffix c cs
  split
  · exact List.dropWhile_suffix _
  split
  · exact readText_suffix c cs
  split
  · split
    · exact (readPattern_suffix _).trans (List.suffix_cons _ _)
    · exact List.dropWhile_suffix _
  · exact readSymbol_suffix c cs

/-! ### Fronts -/

theorem symbol_eq_of_text {s' : Symbol} (hs : s.isKeyword = s'.isKeyword) (h : s.text.toList = s'.text.toList) :
    s = s' := by
  cases hk : s.isKeyword with
  | true =>
    have hwords : ∀ a ∈ Symbol.keywords, ∀ b ∈ Symbol.keywords, a.text.toList = b.text.toList → a = b := by decide
    exact hwords s (List.contains_iff_mem.1 hk) s' (List.contains_iff_mem.1 (hs.symm.trans hk)) h
  | false =>
    rcases single_or_pair hk with ⟨c, hc, hsome⟩ | ⟨c, d, hc, hsome⟩ <;>
      rcases single_or_pair (hs.symm.trans hk) with ⟨c', hc', hsome'⟩ | ⟨c', d', hc', hsome'⟩ <;>
      cases hc.symm.trans (h.trans hc')
    · exact Option.some.inj (hsome.symm.trans hsome')
    · exact Option.some.inj (hsome.symm.trans hsome')

theorem not_keyword_of_pattern (hs : s.isKeyword = true) (h : w ∈ Rule.pattern.language) :
    w ∉ (Rule.fixed s).language := by
  rintro rfl
  obtain ⟨v, -, hv⟩ := mem_word_mul.1 h
  obtain ⟨c, -, u, hu, hname⟩ := mem_chars_mul.1 (hv ▸ keyword_mem_name hs)
  obtain ⟨-, rfl⟩ := List.cons.inj hname
  cases head_of_mem_star hu

theorem Rule.eq_of_mem {rule' : Rule} (hw : w ∈ rule.language) (hw' : w ∈ rule'.language)
    (hrank : rule.rank = rule'.rank) : rule = rule' := by
  obtain ⟨c, u, rfl, hc⟩ := exists_cons hw
  have hc' := (starts_of_front hw' (List.prefix_refl _)).1
  by_cases hdigit : c.isDigit = true
  · obtain rfl | rfl := starts_digit hdigit hc <;> obtain rfl | rfl := starts_digit hdigit hc'
    · rfl
    · cases hrank
    · cases hrank
    · rfl
  by_cases hdollar : c = '$'
  · subst hdollar
    rw [starts_context hc, starts_context hc']
  by_cases hquote : isQuote c = true
  · rw [starts_quote hquote hc, starts_quote hquote hc']
  by_cases hname : isNameStart c = true
  · obtain rfl | rfl | ⟨s, hs, rfl⟩ := starts_nameStart hname hc <;>
      obtain rfl | rfl | ⟨s', hs', rfl⟩ := starts_nameStart hname hc'
    · rfl
    · cases hrank
    · cases hrank
    · cases hrank
    · rfl
    · exact absurd hw' (not_keyword_of_pattern hs' hw)
    · cases hrank
    · exact absurd hw (not_keyword_of_pattern hs hw')
    · rw [symbol_eq_of_text (hs.trans hs'.symm) (Eq.trans (Eq.symm hw) hw')]
  have hplain : Plain c := ⟨by simpa using hdigit, hdollar, by simpa using hquote, by simpa using hname⟩
  obtain ⟨s, hs, rfl⟩ := hplain.starts hc
  obtain ⟨s', hs', rfl⟩ := hplain.starts hc'
  rw [symbol_eq_of_text (hs.trans hs'.symm) (Eq.trans (Eq.symm hw) hw')]

theorem Lexes.exists_rule {text : List Char} (h : Lexes text (some t) spelling) :
    ¬OpensPattern text ∧ ∃ rule, Longest text rule spelling ∧ rule.token? spelling = some t := by
  generalize ht : some t = token at h
  cases h with
  | matched hopen hlong => exact ⟨hopen, _, hlong, rfl⟩
  | stray | unclosedText | unclosedPattern => cases ht

/-- A token that ends within a front of a text is the lexeme of the front. -/
theorem Lexes.front {text spelling' : List Char} {token : Option Token}
    (h : Lexes (text ++ more) (some t) spelling) (hp : spelling <+: text) (h' : Lexes text token spelling') :
    token = some t ∧ spelling' = spelling := by
  obtain ⟨hopen, rule, hlong, htoken⟩ := h.exists_rule
  have hwhole : text <+: text ++ more := List.prefix_append text more
  cases h' with
  | @matched _ _ rule' _ hlong' =>
    have hle := hlong'.longest hlong.spelled hp
    have hle' := hlong.longest hlong'.spelled (hlong'.starts.trans hwhole)
    obtain rfl : spelling' = spelling :=
      (List.prefix_of_prefix_length_le hlong'.starts hp hle').eq_of_length (Nat.le_antisymm hle' hle)
    have hrank := Nat.le_antisymm (hlong'.first hlong.spelled hp rfl)
      (hlong.first hlong'.spelled (hlong'.starts.trans hwhole) rfl)
    obtain rfl := Rule.eq_of_mem hlong'.spelled hlong.spelled hrank
    exact ⟨htoken, rfl⟩
  | stray _ hnone => exact absurd hp (hnone rule _ hlong.spelled)
  | unclosedText hq hnone =>
    obtain ⟨hstarts, u, rfl, -⟩ := Rule.starts_of_front hlong.spelled hp
    obtain rfl := starts_quote hq hstarts
    exact absurd hp (hnone _ (mem_quoted_of_mem_text hlong.spelled))
  | unclosedPattern hopens =>
    obtain ⟨cs, rfl, hquote⟩ := hopens
    refine absurd ⟨cs ++ more, rfl, fun body hbody rest hcs => ?_⟩ hopen
    -- the pattern that closes here is no longer than the token, so it would close within the front
    have hspelled : 'r' :: '"' :: (body ++ ['"']) ∈ Rule.pattern.language :=
      mem_word_mul.2 ⟨_, Language.append_mem_mul hbody (mem_word_mul.2 ⟨[], Language.nil_mem_kstar _, rfl⟩), rfl⟩
    have hlen := hlong.longest hspelled ⟨rest, by simp [hcs]⟩
    have hle := hp.length_le
    obtain ⟨tail, rfl⟩ : body ++ ['"'] <+: cs := by
      have hstart : body ++ ['"'] <+: cs ++ more := ⟨rest, by simp [hcs]⟩
      refine List.prefix_of_prefix_length_le hstart (List.prefix_append cs more) ?_
      simp only [List.length_cons] at hlen hle
      omega
    obtain rfl : rest = tail ++ more := by simpa using hcs.symm
    rw [List.head?_append, hquote body hbody tail (by simp)]
    rfl

theorem read_front (h : read c (cs ++ more) = (some t, rest ++ more)) : read c cs = (some t, rest) := by
  obtain ⟨spelling, hspelling⟩ := read_suffix c (cs ++ more)
  have hlex := lexes_read hspelling.symm
  rw [h] at hspelling hlex
  obtain rfl : cs = spelling ++ rest := List.append_cancel_right (by rw [List.append_assoc, hspelling])
  obtain ⟨spelling', hfront⟩ := read_suffix c (spelling ++ rest)
  obtain ⟨htoken, hsame⟩ := hlex.front (List.cons_prefix_cons.2 ⟨rfl, List.prefix_append spelling rest⟩)
    (lexes_read hfront.symm)
  obtain ⟨-, rfl⟩ := List.cons.inj hsame
  exact Prod.ext htoken (List.append_cancel_left hfront)

end Stencil.Token
