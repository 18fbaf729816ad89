import Stencil.Text.Bytes
import Stencil.Text.Search
set_option autoImplicit false

namespace Stencil.Text

theorem stripWord?_self (word rest : List Char) : stripWord? word (word ++ rest) = some rest := by
  induction word with
  | nil => simp [stripWord?]
  | cons w ws ih => simp [stripWord?, ih]

variable {a b cs src word : List Char} {limit pos : Nat}

theorem stripWord?_append {rest : List Char} (more : List Char)
    (h : stripWord? word cs = some rest) : stripWord? word (cs ++ more) = some (rest ++ more) := by
  rw [stripWord?_eq_some h, List.append_assoc, stripWord?_self]

theorem stripWord?_front (more : List Char) (h : stripWord? word (cs ++ more) = none) : stripWord? word cs = none := by
  cases hs : stripWord? word cs with
  | none => rfl
  | some rest => rw [stripWord?_append more hs] at h; cases h

theorem cut?_word (word rest : List Char) : cut? word (word ++ rest) = some ([], rest) := by
  have h := stripWord?_self word rest
  cases hw : word ++ rest with
  | nil => rw [hw] at h; simp [cut?, h]
  | cons c cs => rw [hw] at h; simp [cut?, h]

theorem cut?_cons {c : Char} (h : cut? word (c :: cs) = some (c :: a, b)) :
    stripWord? word (c :: cs) = none ∧ cut? word cs = some (a, b) := by
  rw [cut?] at h
  cases hs : stripWord? word (c :: cs) with
  | some rest => rw [hs] at h; cases h
  | none =>
    rw [hs] at h
    obtain ⟨p, hp, hab⟩ := Option.map_eq_some_iff.1 h
    refine ⟨rfl, ?_⟩
    rw [hp]
    simpa [Prod.ext_iff] using hab

theorem cut?_front {more : List Char} (h : cut? word (cs ++ more) = some (a, b ++ more)) :
    cut? word cs = some (a, b) := by
  induction a generalizing cs with
  | nil =>
    have hcs := cut?_eq_some h
    rw [List.nil_append, ← List.append_assoc] at hcs
    rw [List.append_cancel_right hcs, cut?_word]
  | cons c a ih =>
    have hcs : cs ++ more = (c :: (a ++ word ++ b)) ++ more := by simpa using cut?_eq_some h
    obtain rfl := List.append_cancel_right hcs
    obtain ⟨hs, hc⟩ := cut?_cons h
    rw [cut?, stripWord?_front more hs, ih hc]
    rfl

theorem cut?_append (more : List Char) (h : cut? word cs = some (a, b)) :
    cut? word (cs ++ more) = some (a, b ++ more) := by
  induction a generalizing cs with
  | nil =>
    rw [cut?_eq_some h, List.nil_append, List.append_assoc, cut?_word]
  | cons c a ih =>
    obtain rfl : cs = c :: (a ++ word ++ b) := by simpa using cut?_eq_some h
    obtain ⟨hs, hc⟩ := cut?_cons h
    have hlonger : stripWord? word (c :: (a ++ word ++ b) ++ more) = none := by
      cases hm : stripWord? word (c :: (a ++ word ++ b) ++ more) with
      | none => rfl
      | some rest =>
        -- The word would stand within the front.
        have hword : word <+: c :: (a ++ word ++ b) := by
          refine List.prefix_of_prefix_length_le ⟨rest, (stripWord?_eq_some hm).symm⟩ (List.prefix_append _ more) ?_
          simp only [List.length_cons, List.length_append]
          omega
        obtain ⟨tail, htail⟩ := hword
        rw [← htail, stripWord?_self] at hs
        cases hs
    rw [List.cons_append, cut?, ← List.cons_append, hlonger]
    simp only [ih hc, Option.map_some]

theorem cut?_append_iff {more : List Char} :
    cut? word (cs ++ more) = some (a, b ++ more) ↔ cut? word cs = some (a, b) :=
  ⟨cut?_front, cut?_append more⟩

theorem cut?_before (hw : word ≠ []) (h : cut? word cs = some (a, b)) : cut? word a = none := by
  induction a generalizing cs with
  | nil =>
    cases word with
    | nil => exact absurd rfl hw
    | cons w ws => rfl
  | cons c a ih =>
    obtain rfl : cs = c :: (a ++ word ++ b) := by simpa using cut?_eq_some h
    obtain ⟨hs, hc⟩ := cut?_cons h
    have hf : stripWord? word (c :: a) = none := stripWord?_front (word ++ b) (by simpa using hs)
    rw [cut?, hf, ih hc]
    rfl

theorem exists_cut? (word a b : List Char) :
    ∃ x y, cut? word (a ++ word ++ b) = some (x, y) ∧ x.length ≤ a.length := by
  induction a with
  | nil => exact ⟨[], b, cut?_word word b, Nat.le_refl _⟩
  | cons c a ih =>
    obtain ⟨x, y, hcut, hle⟩ := ih
    simp only [List.cons_append, cut?]
    split
    · exact ⟨[], _, rfl, Nat.zero_le _⟩
    · exact ⟨c :: x, y, by rw [hcut]; rfl, Nat.succ_le_succ hle⟩

theorem cut?_eq_none_iff : cut? word cs = none ↔ ¬word <:+: cs := by
  constructor
  · rintro hnone ⟨a, b, rfl⟩
    obtain ⟨x, y, hcut, -⟩ := exists_cut? word a b
    rw [hnone] at hcut
    cases hcut
  · intro h
    cases hc : cut? word cs with
    | none => rfl
    | some p => exact absurd ⟨p.1, p.2, (cut?_eq_some hc).symm⟩ h

theorem before_nil (cs : List Char) : before cs [] = cs := by
  simpa using before_append cs []

theorem splitBytes?_append (a b : List Char) : splitBytes? (byteLength a) (a ++ b) = some (a, b) := by
  induction a with
  | nil => simp [byteLength, splitBytes?]
  | cons c a ih =>
    have hc := c.utf8Size_pos
    obtain ⟨n, hn⟩ : ∃ n, byteLength (c :: a) = n + 1 := ⟨c.utf8Size - 1 + byteLength a, by
      simp only [byteLength]; omega⟩
    have hle : c.utf8Size ≤ n + 1 := by rw [← hn]; simp [byteLength]
    have hsub : n + 1 - c.utf8Size = byteLength a := by rw [← hn]; simp [byteLength]
    rw [hn, List.cons_append, splitBytes?, if_pos hle, hsub, ih]
    rfl

theorem byteLength_pos (h : cs ≠ []) : 0 < byteLength cs := by
  cases cs with
  | nil => exact absurd rfl h
  | cons c cs =>
    have := c.utf8Size_pos
    simp only [byteLength]; omega

theorem slice?_eq_some_iff {start stop : Nat} : slice? src start stop = some cs ↔
      ∃ pre post, src = pre ++ cs ++ post ∧ byteLength pre = start ∧ start + byteLength cs = stop := by
  constructor
  · intro h
    unfold slice? at h
    split at h
    · next hle =>
      obtain ⟨⟨upTo, post⟩, hu, h⟩ := Option.bind_eq_some_iff.1 h
      obtain ⟨⟨pre, middle⟩, hm, h⟩ := Option.bind_eq_some_iff.1 h
      obtain rfl : middle = cs := by simpa using h
      obtain ⟨rfl, rfl⟩ := splitBytes?_eq_some hu
      obtain ⟨rfl, rfl⟩ := splitBytes?_eq_some hm
      exact ⟨pre, post, rfl, rfl, by simp⟩
    · cases h
  · rintro ⟨pre, post, rfl, rfl, rfl⟩
    have hup := splitBytes?_append (pre ++ cs) post
    rw [byteLength_append] at hup
    simp only [slice?, Nat.le_add_right, if_true, hup, Option.bind_eq_bind, Option.bind_some,
      splitBytes?_append, pure]

theorem slice?_piece {c : List Char} {start stop : Nat} (h : slice? src start stop = some (a ++ b ++ c)) :
    slice? src (start + byteLength a) (start + byteLength a + byteLength b) = some b := by
  obtain ⟨pre, post, rfl, rfl, -⟩ := slice?_eq_some_iff.1 h
  exact slice?_eq_some_iff.2 ⟨pre ++ a, c ++ post, by simp, by simp, rfl⟩

/-- The source from byte `pos` up to the limit, which may lie past its end, reads `cs`. -/
def Reads (src : List Char) (limit pos : Nat) (cs : List Char) : Prop :=
  ∃ pre post, src = pre ++ cs ++ post ∧ byteLength pre = pos ∧
    pos + byteLength cs = min limit (byteLength src)

theorem Reads.slice (h : Reads src limit pos cs) : slice src pos limit = cs := by
  obtain ⟨pre, post, rfl, rfl, hl⟩ := h
  have hup : splitBytes? (byteLength (pre ++ cs)) (pre ++ cs ++ post) = some (pre ++ cs, post) :=
    splitBytes?_append _ _
  have hs : min (byteLength pre) (byteLength (pre ++ cs)) = byteLength pre := by simp
  rw [byteLength_append] at hup hs
  unfold Text.slice
  simp only [← hl, hs, slice?, hup, Nat.le_add_right, if_true, Option.bind_eq_bind, Option.bind_some,
    splitBytes?_append, pure, Option.getD_some]

theorem reads_slice (h : Text.slice src pos limit = cs) (hne : cs ≠ []) : Reads src limit pos cs := by
  unfold Text.slice at h
  cases hs : slice? src (min pos (min limit (byteLength src))) (min limit (byteLength src)) with
  | none => simp [hs] at h; exact absurd h hne
  | some text =>
    simp only [hs, Option.getD_some] at h
    subst h
    unfold slice? at hs
    rw [if_pos (by omega)] at hs
    obtain ⟨⟨upTo, post⟩, hu, hs⟩ := Option.bind_eq_some_iff.1 hs
    obtain ⟨⟨pre, middle⟩, hm, hs⟩ := Option.bind_eq_some_iff.1 hs
    obtain rfl : middle = text := by simpa using hs
    obtain ⟨rfl, hlen⟩ := splitBytes?_eq_some hu
    obtain ⟨rfl, hpre⟩ := splitBytes?_eq_some hm
    have hpos := byteLength_pos hne
    simp only [byteLength_append] at hlen hpre ⊢
    exact ⟨pre, post, rfl, by omega, by simp only [byteLength_append]; omega⟩

theorem Reads.after (h : Reads src limit pos (a ++ b)) : Reads src limit (pos + byteLength a) b := by
  obtain ⟨pre, post, rfl, rfl, hl⟩ := h
  refine ⟨pre ++ a, post, by simp, by simp, ?_⟩
  rw [← hl]; simp; omega

theorem Reads.piece (h : Reads src limit pos (a ++ b)) : Reads src (pos + byteLength a) pos a := by
  obtain ⟨pre, post, rfl, rfl, -⟩ := h
  exact ⟨pre, b ++ post, by simp, rfl, by simp⟩

theorem Reads.le_limit (h : Reads src limit pos cs) : pos + byteLength cs ≤ limit := by
  obtain ⟨_, _, _, _, hl⟩ := h
  omega

end Stencil.Text
