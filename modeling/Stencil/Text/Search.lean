set_option autoImplicit false

namespace Stencil.Text

def stripWord? : List Char → List Char → Option (List Char)
  | [], cs => some cs
  | _ :: _, [] => none
  | w :: ws, c :: cs => if w = c then stripWord? ws cs else none

theorem stripWord?_eq_some {word cs rest : List Char} (h : stripWord? word cs = some rest) :
    cs = word ++ rest := by
  fun_induction stripWord? word cs generalizing rest with
  | case1 => simp_all
  | case2 => simp at h
  | case3 w ws cs ih => rw [List.cons_append, ← ih h]
  | case4 => simp at h

def cut? (word : List Char) : List Char → Option (List Char × List Char)
  | [] => (stripWord? word []).map fun rest => ([], rest)
  | c :: cs =>
    match stripWord? word (c :: cs) with
    | some rest => some ([], rest)
    | none => (cut? word cs).map fun (a, b) => (c :: a, b)

theorem cut?_eq_some {word cs a b : List Char} (h : cut? word cs = some (a, b)) :
    cs = a ++ word ++ b := by
  induction cs generalizing a b with
  | nil =>
    obtain ⟨rest, hr, hab⟩ := Option.map_eq_some_iff.1 h
    obtain ⟨rfl, rfl⟩ := Prod.mk.inj hab
    simpa using stripWord?_eq_some hr
  | cons c cs ih =>
    simp only [cut?] at h
    split at h
    · next rest hr =>
      obtain ⟨rfl, rfl⟩ := Prod.mk.inj (Option.some.inj h)
      simpa using stripWord?_eq_some hr
    · obtain ⟨⟨a', b'⟩, hs, hab⟩ := Option.map_eq_some_iff.1 h
      obtain ⟨rfl, rfl⟩ := Prod.mk.inj hab
      simpa using ih hs

def occurs (word cs : List Char) : Bool := (cut? word cs).isSome

/-- Cuts at every place of a word that is not empty, scanning on after each one. -/
def splitOnWord (word : List Char) (cs : List Char) : List (List Char) :=
  match _h : cut? word cs with
  | none => [cs]
  | some (a, b) =>
    if _hw : word = [] then [cs]
    else a :: splitOnWord word b
termination_by cs.length
decreasing_by
  have := cut?_eq_some _h
  have hl : 0 < word.length := List.length_pos_iff.2 _hw
  simp [this]
  omega

/-- Cuts a text at every place of a separator. The empty separator stands before every character and at
both ends. -/
def splitOn (separator : List Char) (cs : List Char) : List (List Char) :=
  if separator.isEmpty then [[]] ++ cs.map (fun c => [c]) ++ [[]]
  else splitOnWord separator cs

def joinWith (separator : List Char) : List (List Char) → List Char
  | [] => []
  | [p] => p
  | p :: q :: ps => p ++ separator ++ joinWith separator (q :: ps)

def replaceAll (word by_ cs : List Char) : List Char := joinWith by_ (splitOn word cs)

/-- Removes the longest run of characters at the start that satisfy `p`. -/
def trimStart (p : Char → Bool) (cs : List Char) : List Char := cs.dropWhile p

/-- Removes the longest run of characters at the end that satisfy `p`. -/
def trimEnd (p : Char → Bool) (cs : List Char) : List Char := (cs.reverse.dropWhile p).reverse

def trim (p : Char → Bool) (cs : List Char) : List Char := trimEnd p (trimStart p cs)

end Stencil.Text
