import Stencil.Decimal.Reading
import Stencil.Json.Basic
import Stencil.Json.Written
/-!
The meaning of written JSON. A number with a fraction or an exponent takes its leading digits up to 64 bits and scales
them by one power of ten; a result beyond the range of doubles is refused.
-/
set_option autoImplicit false

namespace Stencil.Json

/-! ### Numbers -/

def wordBound : Nat := Nat.pow 2 64

/-- Takes leading digits while the number stays within 64 bits: the number, how many digits were taken,
how many were left out, and what follows all of them. -/
def takeDigits (n taken left_ : Nat) : List Char → Nat × Nat × Nat × List Char
  | [] => (n, taken, left_, [])
  | c :: cs =>
    if c.isDigit then
      let next := 10 * n + (c.toNat - '0'.toNat)
      if left_ = 0 && next < wordBound then takeDigits next (taken + 1) 0 cs
      else takeDigits n taken (left_ + 1) cs
    else (n, taken, left_, c :: cs)

def powerLimit : Nat := 308

def scaleDown (x : Float) (exponent : Nat) : Float :=
  if exponent ≤ powerLimit then x / Decimal.nearest 1 exponent
  else if x == 0.0 then x
  else scaleDown (x / Decimal.nearest 1 powerLimit) (exponent - powerLimit)
termination_by exponent
decreasing_by simp only [powerLimit] at *; omega

def scaled? (significand : Nat) (exponent : Int) : Option Float :=
  let x := Decimal.nearest significand 0
  if exponent < 0 then some (scaleDown x exponent.natAbs)
  else if exponent ≤ powerLimit then
    let y := x * Decimal.nearest 1 exponent
    if y.isInf then none else some y
  else if x == 0.0 then some x else none

def exponentBound : Nat := Nat.pow 2 31

def exponentPart (significand : Nat) (start : Int) (cs : List Char) : Option (Float × List Char) :=
  let (negative, cs) := match cs with
    | '+' :: rest => (false, rest)
    | '-' :: rest => (true, rest)
    | rest => (false, rest)
  let digits := cs.takeWhile Char.isDigit
  let rest := cs.dropWhile Char.isDigit
  let exponent := Decimal.valueOf 10 digits
  if digits.isEmpty then none
  else if exponentBound ≤ exponent then
    if significand = 0 || negative then some (0.0, rest) else none
  else do return (← scaled? significand (if negative then start - exponent else start + exponent), rest)

def realPart (significand : Nat) (exponent : Int) (cs : List Char) : Option (Float × List Char) :=
  match cs with
  | 'e' :: rest | 'E' :: rest => exponentPart significand exponent rest
  | cs => (scaled? significand exponent).map fun x => (x, cs)

def fractionPart (significand : Nat) (exponent : Int) (cs : List Char) : Option (Float × List Char) :=
  let (n, taken, left_, rest) := takeDigits significand 0 0 cs
  if taken + left_ = 0 then none else realPart n (exponent - taken) rest

def signed (negative : Bool) (x : Float) : Float := if negative then -x else x

def number (negative : Bool) (cs : List Char) : Option (Json × List Char) :=
  let real (r : Option (Float × List Char)) : Option (Json × List Char) :=
    r.map fun (x, rest) => (float (signed negative x), rest)
  match cs with
  | '0' :: d :: rest => if d.isDigit then none else afterDigits real 0 0 (d :: rest)
  | c :: _ =>
    if c.isDigit then
      let (n, _, left_, rest) := takeDigits 0 0 0 cs
      afterDigits real n left_ rest
    else none
  | [] => none
where
  afterDigits (real : Option (Float × List Char) → Option (Json × List Char)) (n left_ : Nat)
      (rest : List Char) : Option (Json × List Char) :=
    match rest with
    | '.' :: rest => real (fractionPart n left_ rest)
    | 'e' :: rest | 'E' :: rest => real (exponentPart n left_ rest)
    | rest =>
      if 0 < left_ then real (realPart n left_ rest)
      else if !negative then some (int n, rest)
      else if n = 0 || Nat.pow 2 63 < n then some (float (-Decimal.nearest n 0), rest)
      else some (int (-n), rest)

/-! ### Texts -/

def hex4? : List Char → Option (Nat × List Char)
  | a :: b :: c :: d :: rest =>
    let ds := [a, b, c, d]
    if ds.all Written.isHex then
      some (Decimal.valueOf 16 ds, rest)
    else none
  | _ => none

/-- Reads the code of an escaped character; a pair of halves makes one character. -/
def unicodeEscape (cs : List Char) : Option (Char × List Char) := do
  let (n, rest) ← hex4? cs
  if 0xDC00 ≤ n && n ≤ 0xDFFF then none
  else if 0xD800 ≤ n && n ≤ 0xDBFF then
    match rest with
    | '\\' :: 'u' :: rest =>
      let (m, rest) ← hex4? rest
      if 0xDC00 ≤ m && m ≤ 0xDFFF then
        return (Char.ofNat (0x10000 + (n - 0xD800) * 0x400 + (m - 0xDC00)), rest)
      else none
    | _ => none
  else return (Char.ofNat n, rest)

def escape : List Char → Option (Char × List Char)
  | '"' :: cs => some ('"', cs)
  | '\\' :: cs => some ('\\', cs)
  | '/' :: cs => some ('/', cs)
  | 'b' :: cs => some ('\x08', cs)
  | 'f' :: cs => some ('\x0c', cs)
  | 'n' :: cs => some ('\n', cs)
  | 'r' :: cs => some ('\r', cs)
  | 't' :: cs => some ('\t', cs)
  | 'u' :: cs => unicodeEscape cs
  | _ => none

theorem hex4?_shorter {cs rest : List Char} {n : Nat} (h : hex4? cs = some (n, rest)) :
    rest.length < cs.length := by
  unfold hex4? at h
  split at h
  · simp only at h
    split at h
    · cases h; simp only [List.length_cons]; omega
    · cases h
  · cases h

theorem unicodeEscape_shorter {cs rest : List Char} {c : Char} (h : unicodeEscape cs = some (c, rest)) :
    rest.length < cs.length := by
  unfold unicodeEscape at h
  simp only [bind, Option.bind_eq_some_iff] at h
  obtain ⟨⟨n, r⟩, hn, h⟩ := h
  have hl := hex4?_shorter hn
  simp only at h
  split at h
  · cases h
  · split at h
    · split at h
      · obtain ⟨⟨m, r'⟩, hm, h⟩ := Option.bind_eq_some_iff.1 h
        have hl' := hex4?_shorter hm
        simp only at h
        split at h
        · obtain ⟨_, rfl⟩ := Prod.mk.inj (Option.some.inj h)
          simp only [List.length_cons] at *; omega
        · cases h
      · cases h
    · obtain ⟨_, rfl⟩ := Prod.mk.inj (Option.some.inj h)
      exact hl

theorem escape_shorter {cs rest : List Char} {c : Char} (h : escape cs = some (c, rest)) :
    rest.length < cs.length := by
  unfold escape at h
  split at h <;> grind [→ unicodeEscape_shorter]

/-- The characters that the spelling of a text stands for; `seen` holds the first of them, last first. -/
def unescape? (seen : List Char) (cs : List Char) : Option String :=
  match cs with
  | [] => some (String.ofList seen.reverse)
  | c :: rest =>
    if c = '\\' then
      match _h : escape rest with
      | none => none
      | some (d, after) => unescape? (d :: seen) after
    else unescape? (c :: seen) rest
termination_by cs.length
decreasing_by
  · exact Nat.lt_succ_of_lt (escape_shorter _h)
  · exact Nat.lt_succ_self _

/-! ### Documents -/

def ofNumeral? (cs : List Char) : Option Json := do
  let (j, _) ← match cs with
    | '-' :: rest => number true rest
    | rest => number false rest
  return j

def depthLimit : Nat := 128

mutual

def ofWritten? (depth : Nat) : Written → Option Json
  | .null => some null
  | .bool b => some (bool b)
  | .numeral cs => ofNumeral? cs
  | .text cs => (unescape? [] cs).map str
  | .arr ws => if depth ≤ 1 then none else (ofItems? (depth - 1) ws).map arr
  | .obj ms => if depth ≤ 1 then none else (ofMembers? (depth - 1) ms).map obj

def ofItems? (depth : Nat) : List Written → Option (List Json)
  | [] => some []
  | w :: ws => do
    let j ← ofWritten? depth w
    return j :: (← ofItems? depth ws)

def ofMembers? (depth : Nat) : List (List Char × Written) → Option (List (String × Json))
  | [] => some []
  | (name, w) :: ms => do
    let name ← unescape? [] name
    let j ← ofWritten? depth w
    return (name, j) :: (← ofMembers? depth ms)

end

def ofText? (s : String) : Option Json := Written.ofText? s >>= ofWritten? depthLimit

end Stencil.Json
