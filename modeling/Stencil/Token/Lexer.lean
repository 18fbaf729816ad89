import Stencil.Span
import Stencil.Text.Bytes
import Stencil.Token.Basic
import Stencil.Decimal.Reading
/-!
Reading tokens. At every place the longest spelling wins; a spelling that is refused, a character that
starts no token, and a literal that is not closed each give an invalid lexeme, and reading goes on after
it.
-/
set_option autoImplicit false

namespace Stencil

/-- A token and where it stands; `none` marks an invalid stretch of text. -/
structure Lexeme where
  token : Option Token
  span : Span
deriving Repr, Inhabited

namespace Token

def isLayout (c : Char) : Bool := c = ' ' || c = '\t' || c = '\r' || c = '\n'

def isNameStart (c : Char) : Bool := c.isAlpha || c = '_'

def isNameChar (c : Char) : Bool := c.isAlphanum || c = '_'

def isHexDigit (c : Char) : Bool := c.isDigit || ('a' ≤ c && c ≤ 'f') || ('A' ≤ c && c ≤ 'F')

/-! ### Numbers -/

def dropDigits (cs : List Char) : List Char := cs.dropWhile fun c => c.isDigit || c = '_'

def afterFraction : List Char → List Char
  | '.' :: d :: cs => if d.isDigit then dropDigits cs else '.' :: d :: cs
  | cs => cs

def afterSign : List Char → List Char
  | [] => []
  | s :: cs => if s = '+' || s = '-' then cs else s :: cs

def afterExponent : List Char → List Char
  | [] => []
  | e :: cs =>
    if e = 'e' || e = 'E' then
      match afterSign cs with
      | d :: ds => if d.isDigit then ds.dropWhile Char.isDigit else e :: cs
      | [] => e :: cs
    else e :: cs

/-- What follows the longest decimal spelling whose first digit stands before `cs`. -/
def afterDecimal (cs : List Char) : List Char :=
  (afterExponent (afterFraction (dropDigits cs))).dropWhile Char.isAlpha

/-- What follows the longest hexadecimal spelling whose first digit is `d`. -/
def afterHex? (d : Char) (cs : List Char) : Option (List Char) :=
  if d = '0' then
    match cs with
    | x :: h :: rest =>
      if (x = 'x' || x = 'X') && isHexDigit h then
        some ((rest.dropWhile fun c => isHexDigit c || c = '_').dropWhile
          fun c => c = 'u' || c = 'U' || c = 'l' || c = 'L')
      else none
    | _ => none
  else none

def intSuffix? (suffix : List Char) : Option IntSuffix :=
  match suffix.map Char.toLower with
  | [] => some .none
  | ['u'] => some .unsigned
  | ['l'] => some .long
  | ['u', 'l'] | ['l', 'u'] => some .unsignedLong
  | _ => none

def magnitude? (suffix : List Char) : Option Nat :=
  match suffix.map Char.toUpper with
  | ['K', 'B'] => some 10
  | ['M', 'B'] => some 20
  | ['G', 'B'] => some 30
  | ['T', 'B'] => some 40
  | ['P', 'B'] => some 50
  | _ => none

def integerBound : Nat := Nat.pow 2 128

def bounded? (n : Nat) : Option Nat := if n < integerBound then some n else none

def splitSuffix (spelling : List Char) : List Char × List Char :=
  let letters := spelling.reverse.takeWhile Char.isAlpha
  (spelling.take (spelling.length - letters.length), letters.reverse)

def decimal? (spelling : List Char) : Option Token :=
  let (body, suffix) := splitSuffix spelling
  let digits := body.filter (· ≠ '_')
  let isReal := digits.any fun c => c = '.' || c = 'e' || c = 'E'
  match magnitude? suffix with
  | some shift =>
    if isReal then do
      let x ← Decimal.readReal? digits
      return real (x * Float.ofNat (Nat.pow 2 shift)) .magnitude
    else do
      let n ← bounded? (← Decimal.readNat? digits)
      return integer (← bounded? (n * Nat.pow 2 shift)) .magnitude
  | none =>
    match suffix.map Char.toLower with
    | ['f'] => do return real (← Decimal.readReal? digits) .single
    | ['d'] => do return real (← Decimal.readReal? digits) .double
    | lower =>
      if isReal then
        if lower.isEmpty then do return real (← Decimal.readReal? digits) .none else none
      else do
        let n ← bounded? (← Decimal.readNat? digits)
        return integer n (← intSuffix? suffix)

def hex? (spelling : List Char) : Option Token :=
  let isSuffix (c : Char) : Bool := c = 'u' || c = 'U' || c = 'l' || c = 'L'
  let digits := (spelling.takeWhile fun c => !isSuffix c).filter (· ≠ '_')
  let suffix := spelling.dropWhile fun c => !isSuffix c
  do return integer (← bounded? (Decimal.valueOf 16 digits)) (← intSuffix? suffix)

/-- Reads a number whose first digit is `d`. Of the two notations the longer spelling wins, and the
hexadecimal one when both are equally long. -/
def readNumber (d : Char) (cs : List Char) : Option Token × List Char :=
  let rest := afterDecimal cs
  match afterHex? d cs with
  | some hexRest =>
    if hexRest.length ≤ rest.length then (hex? ((Text.before cs hexRest).drop 1), hexRest)
    else (decimal? (d :: Text.before cs rest), rest)
  | none => (decimal? (d :: Text.before cs rest), rest)

/-! ### Text and patterns -/

/-- A stretch of a quoted literal: its raw text, what follows, and whether a closing quote was found. -/
structure Stretch where
  raw : List Char
  rest : List Char
  closed : Bool
deriving Repr

namespace Stretch

def push (c : Char) (s : Stretch) : Stretch := { s with raw := c :: s.raw }

end Stretch

/-- Reads up to the closing quote. A backtick takes the character after it along, unless that is a
newline; there, and at the end, the literal breaks off. -/
def readQuoted (quote : Char) : List Char → Stretch
  | [] => ⟨[], [], false⟩
  | [c] => if c = '\x60' then ⟨[], [c], false⟩ else if c = quote then ⟨[], [], true⟩ else ⟨[c], [], false⟩
  | c :: d :: cs =>
    if c = '\x60' then
      if d = '\n' then ⟨[], c :: d :: cs, false⟩ else ((readQuoted quote cs).push d).push c
    else if c = quote then ⟨[], d :: cs, true⟩
    else (readQuoted quote (d :: cs)).push c

def unescape? : List Char → Option (List Char)
  | [] => some []
  | '\x60' :: c :: cs => do
    let d ← match c with
      | 'n' => some '\n'
      | 'r' => some '\r'
      | 't' => some '\t'
      | '0' => some '\x00'
      | '\x60' | '"' | '\'' | '$' => some c
      | _ => none
    return d :: (← unescape? cs)
  | c :: cs => if c = '\x60' then none else do return c :: (← unescape? cs)

def readText (quote : Char) (cs : List Char) : Option Token × List Char :=
  let s := readQuoted quote cs
  if s.closed then ((unescape? s.raw).map fun t => text (String.ofList t), s.rest) else (none, s.rest)

/-- Reads a pattern up to its closing quote, two quotes standing for one. -/
def readPatternBody : List Char → Stretch
  | [] => ⟨[], [], false⟩
  | [c] => if c = '"' then ⟨[], [], true⟩ else ⟨[c], [], false⟩
  | c :: d :: cs =>
    if c = '"' then
      if d = '"' then (readPatternBody cs).push '"' else ⟨[], d :: cs, true⟩
    else (readPatternBody (d :: cs)).push c

def isPatternFlag (c : Char) : Bool := c = 'i' || c = 'm' || c = 's' || c = 'x' || c = 'U'

def readPattern (cs : List Char) : Option Token × List Char :=
  let s := readPatternBody cs
  if s.closed then
    (some (pattern (String.ofList s.raw) (String.ofList (s.rest.takeWhile isPatternFlag))),
      s.rest.dropWhile isPatternFlag)
  else (none, s.rest)

/-! ### Names, contexts, symbols -/

def readName (c : Char) (cs : List Char) : Option Token × List Char :=
  let word := String.ofList (c :: cs.takeWhile isNameChar)
  let token := match Symbol.ofWord? word with
    | some s => fixed s
    | none => name word
  (some token, cs.dropWhile isNameChar)

def contextBound : Nat := Nat.pow 2 64

def readContext (cs : List Char) : Option Token × List Char :=
  let n := Decimal.valueOf 10 (cs.takeWhile Char.isDigit)
  (if n < contextBound then some (context n) else none, cs.dropWhile Char.isDigit)

def pair? (c d : Char) : Option Symbol :=
  match c, d with
  | '&', '&' => some .ampAmp
  | '|', '|' => some .pipePipe
  | '=', '=' => some .eqEq
  | '!', '=' => some .bangEq
  | '=', '~' => some .matched
  | '!', '~' => some .unmatched
  | '<', '=' => some .ltEq
  | '>', '=' => some .gtEq
  | '?', '?' => some .coalesce
  | _, _ => none

def single? (c : Char) : Option Symbol :=
  match c with
  | '+' => some .plus | '-' => some .minus | '*' => some .star | '/' => some .slash | '%' => some .percent
  | '!' => some .bang | '~' => some .tilde | '&' => some .amp | '|' => some .pipe | '^' => some .caret
  | '=' => some .eq | '<' => some .lt | '>' => some .gt | '?' => some .question | ':' => some .colon
  | '.' => some .dot | ',' => some .comma | '(' => some .lParen | ')' => some .rParen
  | '[' => some .lBracket | ']' => some .rBracket
  | _ => none

def readSymbol (c : Char) (cs : List Char) : Option Token × List Char :=
  match cs with
  | d :: rest =>
    match pair? c d with
    | some s => (some (fixed s), rest)
    | none => ((single? c).map fixed, cs)
  | [] => ((single? c).map fixed, cs)

def read (c : Char) (cs : List Char) : Option Token × List Char :=
  if c.isDigit then readNumber c cs
  else if c = '$' then readContext cs
  else if c = '"' || c = '\'' then readText c cs
  else if isNameStart c then
    match c, cs with
    | 'r', '"' :: rest => readPattern rest
    | c, cs => readName c cs
  else readSymbol c cs

/-! ### Progress -/

theorem length_dropWhile_le {α : Type} (p : α → Bool) (l : List α) : (l.dropWhile p).length ≤ l.length :=
  (List.dropWhile_suffix p).length_le

theorem length_afterFraction_le (cs : List Char) : (afterFraction cs).length ≤ cs.length := by
  fun_cases afterFraction cs with
  | case1 d cs hd =>
    have := length_dropWhile_le (fun c => c.isDigit || c = '_') cs
    simp only [dropDigits, List.length_cons]; omega
  | case2 => exact Nat.le_refl _
  | case3 => exact Nat.le_refl _

theorem length_afterSign_le (cs : List Char) : (afterSign cs).length ≤ cs.length := by
  fun_cases afterSign cs <;> simp

theorem length_afterExponent_le (cs : List Char) : (afterExponent cs).length ≤ cs.length := by
  fun_cases afterExponent cs with
  | case2 e cs he d ds hd hdigit =>
    have h₁ := length_dropWhile_le Char.isDigit ds
    have h₂ := length_afterSign_le cs
    rw [hd] at h₂
    simp only [List.length_cons] at h₂ ⊢; omega
  | case1 | case3 | case4 | case5 => exact Nat.le_refl _

theorem length_afterDecimal_le (cs : List Char) : (afterDecimal cs).length ≤ cs.length := by
  have h₁ := length_dropWhile_le Char.isAlpha (afterExponent (afterFraction (dropDigits cs)))
  have h₂ := length_afterExponent_le (afterFraction (dropDigits cs))
  have h₃ := length_afterFraction_le (dropDigits cs)
  have h₄ := length_dropWhile_le (fun c => c.isDigit || c = '_') cs
  simp only [afterDecimal, dropDigits] at *
  omega

theorem length_readNumber_le (d : Char) (cs : List Char) : (readNumber d cs).2.length ≤ cs.length := by
  have h := length_afterDecimal_le cs
  unfold readNumber
  simp only []
  split
  · split
    · simp only []; omega
    · exact h
  · exact h

theorem length_readQuoted_le (quote : Char) (cs : List Char) :
    (readQuoted quote cs).rest.length ≤ cs.length := by
  fun_induction readQuoted quote cs <;> simp_all [Stretch.push] <;> omega

theorem length_readPatternBody_le (cs : List Char) : (readPatternBody cs).rest.length ≤ cs.length := by
  fun_induction readPatternBody cs <;> simp_all [Stretch.push] <;> omega

theorem length_readPattern_le (cs : List Char) : (readPattern cs).2.length ≤ cs.length := by
  have h₁ := length_readPatternBody_le cs
  have h₂ := length_dropWhile_le isPatternFlag (readPatternBody cs).rest
  unfold readPattern
  simp only []
  split <;> simp only [] <;> omega

theorem length_read_le (c : Char) (cs : List Char) : (read c cs).2.length ≤ cs.length := by
  unfold read
  split
  · exact length_readNumber_le c cs
  split
  · exact length_dropWhile_le _ _
  split
  · have := length_readQuoted_le c cs
    unfold readText; simp only []; split <;> exact this
  split
  · split
    · exact Nat.le_succ_of_le (length_readPattern_le _)
    · exact length_dropWhile_le _ _
  · unfold readSymbol
    split
    · split <;> simp
    · exact Nat.le_refl _

/-! ### All lexemes -/

def scanFrom (pos : Nat) : List Char → List Lexeme
  | [] => []
  | c :: cs =>
    if isLayout c then scanFrom (pos + c.utf8Size) cs
    else
      let size := Text.byteLength (Text.before (c :: cs) (read c cs).2)
      ⟨(read c cs).1, ⟨pos, pos + size⟩⟩ :: scanFrom (pos + size) (read c cs).2
termination_by cs => cs.length
decreasing_by
  · simp
  · have := length_read_le c cs
    simp only [List.length_cons]; omega

def scan (text : String) : List Lexeme := scanFrom 0 text.toList

end Token

end Stencil
