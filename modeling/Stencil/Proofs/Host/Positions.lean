import Stencil.Host.Member
import Stencil.Proofs.Operator.Wrapping
import Stencil.Proofs.Text.Cut
set_option autoImplicit false

namespace Stencil

namespace Text

theorem joinWith_cons (separator part : List Char) {parts : List (List Char)} (h : parts ≠ []) :
    joinWith separator (part :: parts) = part ++ separator ++ joinWith separator parts := by
  cases parts with
  | nil => exact absurd rfl h
  | cons => rfl

theorem joinWith_nil (parts : List (List Char)) : joinWith [] parts = parts.flatten := by
  induction parts with
  | nil => rfl
  | cons part parts ih =>
    cases parts with
    | nil => simp [joinWith]
    | cons => simp [joinWith, ih]

theorem splitOnWord_ne_nil (word cs : List Char) : splitOnWord word cs ≠ [] := by
  rw [splitOnWord]
  split
  · exact List.cons_ne_nil _ _
  · split <;> exact List.cons_ne_nil _ _

theorem joinWith_splitOn (separator cs : List Char) : joinWith separator (splitOn separator cs) = cs := by
  unfold splitOn
  split
  · next h =>
    obtain rfl := List.isEmpty_iff.1 h
    simp [joinWith_nil, ← List.flatMap_def]
  · -- The turns of the scan: nothing is left to cut, or a part is cut off and the rest is joined by induction.
    fun_induction splitOnWord separator cs with
    | case1 => rfl
    | case2 => rfl
    | case3 cs a b hcut hword ih => rw [joinWith_cons _ _ (splitOnWord_ne_nil _ _), ih, ← cut?_eq_some hcut]

end Text

namespace Builtin

variable {cs needle : List Char} {a n : Int}

theorem substring_eq_ok_iff {v : Value} : substring cs a (some n) = .ok v ↔
    (0 ≤ a ∧ 0 ≤ n ∧ a + n ≤ cs.length) ∧ v = ofChars ((cs.drop a.toNat).take n.toNat) := by
  simp only [substring, Bool.or_eq_true, decide_eq_true_eq]
  split
  · simp only [reduceCtorEq, false_iff, not_and]
    omega
  · split
    · simp only [reduceCtorEq, false_iff, not_and]
      omega
    · rw [Except.ok.injEq, eq_comm, and_iff_right (by omega)]

theorem indexOf_cases (needle cs : List Char) :
    indexOf needle cs = -1 ∧ Text.occurs needle cs = false ∨
      ∃ i : Nat, indexOf needle cs = i ∧ i ≤ cs.length ∧ Text.occurs needle cs = true := by
  unfold indexOf Text.occurs
  cases hc : Text.cut? needle cs with
  | none => exact .inl ⟨rfl, rfl⟩
  | some p => exact .inr ⟨p.1.length, rfl, by rw [Text.cut?_eq_some hc]; simp, rfl⟩

/-- A text that is found stands where it is found and nowhere before. -/
theorem substring_indexOf {j : Int} (h : indexOf needle cs ≠ -1) (hj : j ≤ indexOf needle cs) :
    substring cs j (some needle.length) = .ok (ofChars needle) ↔ j = indexOf needle cs := by
  unfold indexOf at *
  cases hc : Text.cut? needle cs with
  | none => simp [hc] at h
  | some p =>
    simp only [hc] at hj ⊢
    simp only [substring_eq_ok_iff, ofChars, Value.text.injEq, String.ofList_inj]
    constructor
    · rintro ⟨⟨hj₀, -⟩, hneedle⟩
      obtain ⟨k, rfl⟩ := Int.eq_ofNat_of_zero_le hj₀
      obtain ⟨x, y, hx, hle⟩ := Text.exists_cut? needle (cs.take k) (cs.drop (k + needle.length))
      have hcs : cs.take k ++ needle ++ cs.drop (k + needle.length) = cs := by
        nth_rewrite 1 [hneedle]
        simp [← List.drop_drop]
      -- The word stands at `k`, so its first place is no later.
      rw [hcs, hc] at hx
      cases hx
      rw [List.length_take] at hle
      simp only at hj ⊢
      omega
    · rintro rfl
      obtain rfl := Text.cut?_eq_some hc
      simp

end Builtin

theorem ofCount_eq {n : Int} (h : -1 ≤ n) (h' : n < 2 ^ 31) : Builtin.ofCount n = .int n .i32 := by
  have hin : IntKind.i32.contains n = true := by
    simp [IntKind.contains, IntKind.minValue, IntKind.maxValue, IntKind.isSigned, IntKind.modulus, IntKind.bits]
    omega
  exact congrArg (Value.int · .i32) (IntKind.wrap_eq_self_iff.2 hin)

namespace Host

variable (h : Host) (c : Bool) (w : World) (s t : String)

theorem member_length (hs : s.length < 2 ^ 31) : h.member c (.text s) "length" w = .ok (some (.int s.length .i32)) := by
  have hcount : h.member c (.text s) "length" w = .ok (some (Builtin.ofCount s.toList.length)) := by cases c <;> rfl
  rw [hcount, ofCount_eq (by omega) (by rw [String.length_toList]; omega), String.length_toList]

theorem index_text {s : String} {i : Nat} (hi : i < s.toList.length) :
    index w (.text s) (.int i .i32) = .ok (.text (String.ofList [s.toList[i]])) := by
  have hpos : position w (.int i .i32) s.toList.length = .ok i := by
    simp only [position, Value.toInt?]
    rw [if_neg (by simp only [Bool.or_eq_true, decide_eq_true_eq]; omega), Int.toNat_natCast]
  simp only [index, hpos, bind, Except.bind, pure, Except.pure, List.getElem?_eq_getElem hi, Option.toList_some]

theorem invoke_contains : h.invoke c (.text s) "contains" [.text t] w =
    (.ok (.bool (Text.occurs t.toList s.toList)), w) := by
  cases c <;> rfl

theorem invoke_index_of : h.invoke c (.text s) "index_of" [.text t] w =
    (.ok (Builtin.ofCount (Builtin.indexOf t.toList s.toList)), w) := by
  cases c <;> rfl

theorem invoke_substring {a n : Int} {v : Value} :
    h.invoke c (.text s) "substring" [.int a .i32, .int n .i32] w = (.ok v, w) ↔
      Builtin.substring s.toList a (some n) = .ok v := by
  have hrun : h.invoke c (.text s) "substring" [.int a .i32, .int n .i32] w =
      (Builtin.substring s.toList a (some n), w) := by cases c <;> rfl
  rw [hrun]
  exact ⟨congrArg Prod.fst, congrArg (·, w)⟩

theorem invoke_split : h.invoke c (.text s) "split" [.text t] w =
    (.ok (.list ((Text.splitOn t.toList s.toList).map Builtin.ofChars)), w) := by
  cases c <;> rfl

theorem invoke_join (vs : List Value) : h.invoke c (.list vs) "join" [.text t] w =
    (.ok (Builtin.ofChars (Text.joinWith t.toList (vs.map fun v => (v.display w).toList))), w) := by
  cases c <;> rfl

end Host

/-- Members of texts agree on positions. A text is contained where it has a position; the part of its length from
there on is the text, and no part from a place before is. A part can be taken exactly within the text, and consists of
the characters that stand at its positions. Splitting and joining with one separator gives the text back. -/
theorem text_positions_agree (h : Host) (c : Bool) (w : World) (s t : String) (hs : s.length < 2 ^ 31)
    (ht : t.length < 2 ^ 31) :
    h.member c (.text s) "length" w = .ok (some (.int s.length .i32)) ∧
    h.member c (.text t) "length" w = .ok (some (.int t.length .i32)) ∧
    (∃ i : Int, h.invoke c (.text s) "index_of" [.text t] w = (.ok (.int i .i32), w) ∧
      h.invoke c (.text s) "contains" [.text t] w = (.ok (.bool (i != -1)), w) ∧
      (i ≠ -1 → h.invoke c (.text s) "substring" [.int i .i32, .int t.length .i32] w = (.ok (.text t), w) ∧
        ∀ j < i, h.invoke c (.text s) "substring" [.int j .i32, .int t.length .i32] w ≠ (.ok (.text t), w))) ∧
    (∀ a n : Int,
      ((∃ v, h.invoke c (.text s) "substring" [.int a .i32, .int n .i32] w = (.ok v, w)) ↔
        0 ≤ a ∧ 0 ≤ n ∧ a + n ≤ s.length) ∧
      ∀ v, h.invoke c (.text s) "substring" [.int a .i32, .int n .i32] w = (.ok v, w) →
        h.member c v "length" w = .ok (some (.int n .i32)) ∧
        ∃ cs : List Char, v = .text (String.ofList cs) ∧ cs.length = n ∧ ∀ (k : Nat) (hk : k < cs.length),
          Host.index w (.text s) (.int (a + k) .i32) = .ok (.text (String.ofList [cs[k]]))) ∧
    ∀ p : String, ∃ parts, h.invoke c (.text s) "split" [.text p] w = (.ok parts, w) ∧
      h.invoke c parts "join" [.text p] w = (.ok (.text s), w) := by
  refine ⟨h.member_length c w s hs, h.member_length c w t ht, ?_, fun a n => ?_, fun p => ?_⟩
  · have hpart {j : Int} (hi : Builtin.indexOf t.toList s.toList ≠ -1) (hj : j ≤ Builtin.indexOf t.toList s.toList) :
        h.invoke c (.text s) "substring" [.int j .i32, .int t.length .i32] w = (.ok (.text t), w) ↔
          j = Builtin.indexOf t.toList s.toList := by
      rw [Host.invoke_substring, ← Builtin.substring_indexOf hi hj, String.length_toList, Builtin.ofChars,
        String.ofList_toList]
    rw [Host.invoke_index_of, Host.invoke_contains]
    obtain ⟨hi, ho⟩ | ⟨i, hi, hle, ho⟩ := Builtin.indexOf_cases t.toList s.toList
    · rw [hi, ho]
      exact ⟨-1, rfl, rfl, absurd rfl⟩
    · rw [String.length_toList] at hle
      rw [hi] at hpart
      rw [hi, ho, ofCount_eq (by omega) (by omega)]
      refine ⟨i, rfl, ?_, fun hne => ⟨(hpart hne (Int.le_refl _)).2 rfl, fun j hj heq => ?_⟩⟩
      · rw [bne_iff_ne.2 (by omega)]
      · have := (hpart hne (by omega)).1 heq
        omega
  · simp only [Host.invoke_substring, Builtin.substring_eq_ok_iff, String.length_toList]
    refine ⟨by simp, ?_⟩
    rintro v ⟨⟨ha, hn, hle⟩, rfl⟩
    have hlength : ((s.toList.drop a.toNat).take n.toNat).length = n.toNat := by
      simp only [List.length_take, List.length_drop, String.length_toList]
      omega
    have hmember := h.member_length c w (String.ofList ((s.toList.drop a.toNat).take n.toNat)) (by
      rw [String.length_ofList, hlength]; omega)
    rw [String.length_ofList, hlength, Int.toNat_of_nonneg hn] at hmember
    refine ⟨hmember, _, rfl, by rw [hlength, Int.toNat_of_nonneg hn], fun k hk => ?_⟩
    rw [hlength] at hk
    obtain ⟨a, rfl⟩ := Int.eq_ofNat_of_zero_le ha
    rw [← Int.natCast_add, Host.index_text w (by rw [String.length_toList]; omega)]
    simp
  · refine ⟨_, h.invoke_split c w s p, ?_⟩
    rw [h.invoke_join]
    simp [Value.display, Builtin.ofChars, Value.textWith, Function.comp_def, Text.joinWith_splitOn]

/-- Letters of several bytes are counted as one. -/
theorem text_positions_agree_letters :
    let text (s : String) : Value := .text s
    let call (v : Value) (name : String) (args : List Value) := (Host.empty.invoke true v name args .empty).1
    call (text "Grüße, Größe") "index_of" [text "öße"] = .ok (.int 9 .i32) ∧
      call (text "Grüße, Größe") "substring" [.int 9 .i32, .int 3 .i32] = .ok (text "öße") := by
  intro text call
  obtain ⟨-, -, ⟨i, hi, -, hpart⟩, -⟩ :=
    text_positions_agree .empty true .empty "Grüße, Größe" "öße" (by decide) (by decide)
  have hnine : call (text "Grüße, Größe") "index_of" [text "öße"] = .ok (.int 9 .i32) := rfl
  obtain rfl : i = 9 := by
    have := (congrArg Prod.fst hi).symm.trans hnine
    cases this
    rfl
  exact ⟨hnine, congrArg Prod.fst (hpart (by decide)).1⟩

end Stencil
