/-!
JSON documents as they are written. The form of every number and text is checked, and what they mean is
left open, so any document of the right form can be read, however deep it is.
-/
set_option autoImplicit false

namespace Stencil.Json

inductive Written where
  | null
  | bool (b : Bool)
  | numeral (spelling : List Char)
  | text (spelling : List Char)
  | arr (items : List Written)
  | obj (members : List (List Char × Written))
deriving Repr, Inhabited

namespace Written

def isLayout (c : Char) : Bool := c = ' ' || c = '\t' || c = '\r' || c = '\n'

def skip (cs : List Char) : List Char := cs.dropWhile isLayout

def digits? (cs : List Char) : Option (List Char × List Char) :=
  match cs.takeWhile Char.isDigit with
  | [] => none
  | ds => some (ds, cs.dropWhile Char.isDigit)

def wholePart? : List Char → Option (List Char × List Char)
  | '0' :: cs => if (digits? cs).isSome then none else some (['0'], cs)
  | cs => digits? cs

def fraction? : List Char → Option (List Char × List Char)
  | '.' :: cs => (digits? cs).map fun (ds, rest) => ('.' :: ds, rest)
  | cs => some ([], cs)

def exponent? (cs : List Char) : Option (List Char × List Char) :=
  match cs with
  | c :: rest =>
    if c = 'e' || c = 'E' then
      let (sign, rest) := match rest with
        | '+' :: rest => (['+'], rest)
        | '-' :: rest => (['-'], rest)
        | rest => ([], rest)
      (digits? rest).map fun (ds, rest) => (c :: sign ++ ds, rest)
    else some ([], cs)
  | [] => some ([], [])

def numeral? (cs : List Char) : Option (List Char × List Char) := do
  let (sign, rest) := match cs with
    | '-' :: rest => (['-'], rest)
    | rest => ([], rest)
  let (whole, rest) ← wholePart? rest
  let (fraction, rest) ← fraction? rest
  let (exponent, rest) ← exponent? rest
  return (sign ++ whole ++ fraction ++ exponent, rest)

def isHex (c : Char) : Bool := c.isDigit || ('a' ≤ c && c ≤ 'f') || ('A' ≤ c && c ≤ 'F')

/-- Reads the spelling of a text after its opening quote; `seen` holds what was read, last first. -/
def text? (seen : List Char) : List Char → Option (List Char × List Char)
  | [] => none
  | '"' :: rest => some (seen.reverse, rest)
  | '\\' :: 'u' :: a :: b :: c :: d :: rest =>
    if [a, b, c, d].all isHex then text? (d :: c :: b :: a :: 'u' :: '\\' :: seen) rest else none
  | '\\' :: c :: rest => if "\"\\/bfnrt".toList.contains c then text? (c :: '\\' :: seen) rest else none
  | c :: rest => if c = '\\' || c.toNat < 0x20 then none else text? (c :: seen) rest

def keyword? (word : String) (w : Written) (cs : List Char) : Option (Written × List Char) :=
  let letters := word.toList
  if letters.isPrefixOf cs then some (w, cs.drop letters.length) else none

def leaf? (c : Char) (cs : List Char) : Option (Written × List Char) :=
  match c with
  | 'n' => keyword? "null" null (c :: cs)
  | 't' => keyword? "true" (bool true) (c :: cs)
  | 'f' => keyword? "false" (bool false) (c :: cs)
  | '"' => (text? [] cs).map fun (s, rest) => (text s, rest)
  | _ => (numeral? (c :: cs)).map fun (ds, rest) => (numeral ds, rest)

/-! ### Progress -/

theorem length_skip_le (cs : List Char) : (skip cs).length ≤ cs.length :=
  (List.dropWhile_suffix isLayout).length_le

theorem digits?_shorter {cs ds rest : List Char} (h : digits? cs = some (ds, rest)) :
    rest.length < cs.length := by
  have hl := congrArg List.length (List.takeWhile_append_dropWhile (p := Char.isDigit) (l := cs))
  unfold digits? at h
  split at h
  · cases h
  · next ht =>
    obtain ⟨rfl, rfl⟩ := Prod.mk.inj (Option.some.inj h)
    have : 0 < (cs.takeWhile Char.isDigit).length := List.length_pos_iff.2 ht
    rw [List.length_append] at hl
    omega

theorem wholePart?_shorter {cs ds rest : List Char} (h : wholePart? cs = some (ds, rest)) :
    rest.length < cs.length := by
  unfold wholePart? at h
  split at h
  · split at h
    · cases h
    · cases h; simp
  · exact digits?_shorter h

theorem fraction?_le {cs ds rest : List Char} (h : fraction? cs = some (ds, rest)) :
    rest.length ≤ cs.length := by
  unfold fraction? at h
  split at h
  · obtain ⟨⟨es, rest'⟩, hd, he⟩ := Option.map_eq_some_iff.1 h
    have := digits?_shorter hd
    cases he
    simp only [List.length_cons]; omega
  · cases h; exact Nat.le_refl _

theorem exponent?_le {cs ds rest : List Char} (h : exponent? cs = some (ds, rest)) :
    rest.length ≤ cs.length := by
  unfold exponent? at h
  split at h
  · split at h
    · obtain ⟨⟨es, rest'⟩, hd, he⟩ := Option.map_eq_some_iff.1 h
      have := digits?_shorter hd
      cases he
      split at this <;> simp only [List.length_cons] at * <;> omega
    · cases h; exact Nat.le_refl _
  · cases h; exact Nat.le_refl _

theorem numeral?_shorter {cs ds rest : List Char} (h : numeral? cs = some (ds, rest)) :
    rest.length < cs.length := by
  unfold numeral? at h
  simp only [bind, Option.bind_eq_some_iff, pure, Option.some.injEq, Prod.mk.injEq] at h
  obtain ⟨⟨_, r₁⟩, h₁, ⟨_, r₂⟩, h₂, ⟨_, r₃⟩, h₃, _, rfl⟩ := h
  have l₁ := wholePart?_shorter h₁
  have l₂ := fraction?_le h₂
  have l₃ := exponent?_le h₃
  simp only at *
  split at l₁ <;> simp only [List.length_cons] at * <;> omega

theorem text?_shorter {seen cs s rest : List Char} (h : text? seen cs = some (s, rest)) :
    rest.length < cs.length := by
  fun_induction text? seen cs <;> simp_all <;> omega

theorem keyword?_shorter {word : String} {w v : Written} {c : Char} {cs rest : List Char}
    (hw : 0 < word.toList.length) (h : keyword? word w (c :: cs) = some (v, rest)) :
    rest.length < cs.length + 1 := by
  unfold keyword? at h
  simp only at h
  split at h
  · cases h
    simp only [List.length_drop, List.length_cons]; omega
  · cases h

theorem leaf?_shorter {c : Char} {cs rest : List Char} {w : Written} (h : leaf? c cs = some (w, rest)) :
    rest.length < cs.length + 1 := by
  unfold leaf? at h
  split at h
  · exact keyword?_shorter (by decide) h
  · exact keyword?_shorter (by decide) h
  · exact keyword?_shorter (by decide) h
  · obtain ⟨⟨s, rest'⟩, ht, he⟩ := Option.map_eq_some_iff.1 h
    cases he
    exact Nat.lt_succ_of_lt (text?_shorter ht)
  · obtain ⟨⟨ds, rest'⟩, hn, he⟩ := Option.map_eq_some_iff.1 h
    cases he
    exact numeral?_shorter hn

theorem length_of_skip {cs rest : List Char} {c : Char} (h : skip cs = c :: rest) :
    rest.length < cs.length := by
  have := length_skip_le cs
  rw [h] at this
  exact this

/-! ### Documents -/

structure Reading (α : Type) (n : Nat) where
  value : α
  rest : List Char
  shorter : rest.length < n

mutual

def value? (cs : List Char) : Option (Reading Written cs.length) :=
  match hs : skip cs with
  | [] => none
  | c :: rest =>
    have hc : rest.length < cs.length := length_of_skip hs
    if c = '[' then
      match hr : skip rest with
      | ']' :: after => some ⟨arr [], after, Nat.lt_trans (length_of_skip hr) hc⟩
      | _ => do
        let ⟨ws, after, h⟩ ← items? rest
        return ⟨arr ws, after, Nat.lt_trans h hc⟩
    else if c = '\x7b' then
      match hr : skip rest with
      | '\x7d' :: after => some ⟨obj [], after, Nat.lt_trans (length_of_skip hr) hc⟩
      | _ => do
        let ⟨ms, after, h⟩ ← members? rest
        return ⟨obj ms, after, Nat.lt_trans h hc⟩
    else
      match hl : leaf? c rest with
      | none => none
      | some (w, after) => some ⟨w, after, Nat.lt_of_lt_of_le (leaf?_shorter hl) hc⟩
termination_by 2 * cs.length
decreasing_by all_goals omega

def items? (cs : List Char) : Option (Reading (List Written) cs.length) := do
  let ⟨w, rest, h⟩ ← value? cs
  match hr : skip rest with
  | ']' :: after => return ⟨[w], after, Nat.lt_trans (length_of_skip hr) h⟩
  | ',' :: after =>
    have ha : after.length < cs.length := Nat.lt_trans (length_of_skip hr) h
    let ⟨ws, after, h'⟩ ← items? after
    return ⟨w :: ws, after, Nat.lt_trans h' ha⟩
  | _ => none
termination_by 2 * cs.length + 1
decreasing_by all_goals omega

def members? (cs : List Char) : Option (Reading (List (List Char × Written)) cs.length) :=
  match hs : skip cs with
  | '"' :: rest =>
    match ht : text? [] rest with
    | none => none
    | some (name, rest₁) =>
      have h₁ : rest₁.length < cs.length := Nat.lt_trans (text?_shorter ht) (length_of_skip hs)
      match hc : skip rest₁ with
      | ':' :: rest₂ => do
        have h₂ : rest₂.length < cs.length := Nat.lt_trans (length_of_skip hc) h₁
        let ⟨w, rest₃, h₃⟩ ← value? rest₂
        match hr : skip rest₃ with
        | '\x7d' :: after =>
          return ⟨[(name, w)], after, Nat.lt_trans (length_of_skip hr) (Nat.lt_trans h₃ h₂)⟩
        | ',' :: after =>
          have ha : after.length < cs.length := Nat.lt_trans (length_of_skip hr) (Nat.lt_trans h₃ h₂)
          let ⟨ms, after, h⟩ ← members? after
          return ⟨(name, w) :: ms, after, Nat.lt_trans h ha⟩
        | _ => none
      | _ => none
  | _ => none
termination_by 2 * cs.length + 1
decreasing_by all_goals omega

end

def ofText? (s : String) : Option Written := do
  let ⟨w, rest, _⟩ ← value? s.toList
  if (skip rest).isEmpty then some w else none

end Written

end Stencil.Json
