import Stencil.Fault.Diagnostic
import Stencil.Proofs.Text.Boundary
set_option autoImplicit false

namespace Stencil

open Text (byteLength slice?)

namespace Source

def newlinesBefore : List Char → Nat → Nat
  | [], _ => 0
  | c :: cs, n => if n = 0 then 0 else (if c = '\n' then 1 else 0) + newlinesBefore cs (n - c.utf8Size)

/-- The line of a text that byte `o` stands in, with the newline that ends it, between what is above and what is below.
The end of the text belongs to the last line. -/
structure LineAt (cs : List Char) (o : Nat) (above line newline below : List Char) : Prop where
  whole : cs = above ++ (line ++ newline) ++ below
  starts : above = [] ∨ above.getLast? = some '\n'
  single : '\n' ∉ line
  ends : newline = ['\n'] ∨ newline = [] ∧ below = []
  proper : line ++ newline = [] → above = []
  reached : byteLength above ≤ o
  ahead : o ≤ byteLength (above ++ line) ∨ below = [] ∧ o = byteLength cs

/-- The text of a line is what stands before the line ends it closes with. -/
def Shown (line text : List Char) : Prop :=
  ∃ ends, line = text ++ ends ∧ (∀ c ∈ ends, c = '\n' ∨ c = '\r') ∧ ∀ c ∈ text.getLast?, c ≠ '\n' ∧ c ≠ '\r'

theorem shown_dropLineEnd (line : List Char) : Shown line (dropLineEnd line) := by
  let lineEnd (c : Char) : Bool := c = '\n' || c = '\r'
  refine ⟨(line.reverse.takeWhile lineEnd).reverse, ?_, fun c hc => ?_, fun c hc => ?_⟩
  · rw [dropLineEnd, ← List.reverse_append, List.takeWhile_append_dropWhile, List.reverse_reverse]
  · simpa [lineEnd] using List.all_eq_true.1 List.all_takeWhile c (List.mem_reverse.1 hc)
  · have hhead := List.head?_dropWhile_not lineEnd line.reverse
    rw [dropLineEnd, List.getLast?_reverse] at hc
    rw [show line.reverse.dropWhile lineEnd = _ from rfl, Option.mem_def.1 hc] at hhead
    simpa [lineEnd] using hhead

variable {cs above line newline below : List Char} {c : Char} {o : Nat}

/-! Where a byte stands -/

theorem LineAt.below_newline (h : LineAt cs (o - 1) above line newline below) (hcs : cs ≠ []) (ho : o ≠ 0) :
    LineAt ('\n' :: cs) o ('\n' :: above) line newline below where
  whole := by simp [h.whole]
  starts := by
    rcases h.starts with rfl | hlast
    · exact .inr rfl
    · exact .inr (by simp [List.getLast?_cons, hlast])
  single := h.single
  ends := h.ends
  proper hnil := by
    have hwhole := h.whole
    rcases h.ends with rfl | ⟨rfl, rfl⟩
    · simp at hnil
    · simp [h.proper hnil, hnil, hcs] at hwhole
  reached := by
    have hreached := h.reached
    simp only [byteLength, show '\n'.utf8Size = 1 from rfl]
    omega
  ahead := by
    simp only [List.cons_append, byteLength, show '\n'.utf8Size = 1 from rfl]
    exact h.ahead.imp (by omega) fun hend => ⟨hend.1, by omega⟩

theorem LineAt.after (h : LineAt cs (o - c.utf8Size) above line newline below) (hc : c ≠ '\n') :
    ∃ above line, LineAt (c :: cs) o above line newline below := by
  have hpos := c.utf8Size_pos
  have hreached := h.reached
  by_cases habove : above = []
  · subst habove
    refine ⟨[], c :: line, by simp [h.whole], .inl rfl, ?_, h.ends, by simp, Nat.zero_le _, ?_⟩
    · simpa using ⟨Ne.symm hc, h.single⟩
    · simp only [List.nil_append, byteLength]
      by_cases ho : c.utf8Size ≤ o
      · exact h.ahead.imp (fun hle => by rw [List.nil_append] at hle; omega) fun hend => ⟨hend.1, by omega⟩
      · exact .inl (by omega)
  · have hlong := Text.byteLength_pos habove
    refine ⟨c :: above, line, by simp [h.whole], ?_, h.single, h.ends, fun hnil => absurd (h.proper hnil) habove, ?_, ?_⟩
    · exact .inr (by simp [List.getLast?_cons, h.starts.resolve_left habove])
    · simp only [byteLength]
      omega
    · simp only [List.cons_append, byteLength]
      exact h.ahead.imp (by omega) fun hend => ⟨hend.1, by omega⟩

theorem exists_lineAt (h : o ≤ byteLength cs) : ∃ above line newline below, LineAt cs o above line newline below := by
  induction cs generalizing o with
  | nil => exact ⟨[], [], [], [], by simp, by simp, by simp, by simp, by simp, by simp [byteLength],
      .inl (by simpa [byteLength] using h)⟩
  | cons c cs ih =>
    obtain ⟨above, line, newline, below, hl⟩ := ih (o := o - c.utf8Size) (by simp only [byteLength] at h; omega)
    by_cases hc : c = '\n'
    · subst hc
      by_cases hin : cs ≠ [] ∧ o ≠ 0
      · exact ⟨_, _, _, _, hl.below_newline hin.1 hin.2⟩
      · refine ⟨[], [], ['\n'], cs, by simp, .inl rfl, by simp, .inl rfl, by simp, Nat.zero_le _, ?_⟩
        by_cases ho : o = 0
        · exact .inl (by simp [ho])
        · have hcs : cs = [] := Decidable.byContradiction fun hne => hin ⟨hne, ho⟩
          subst hcs
          refine .inr ⟨rfl, ?_⟩
          simp only [byteLength, show '\n'.utf8Size = 1 from rfl] at h ⊢
          omega
    · obtain ⟨above, line, hl⟩ := hl.after hc
      exact ⟨_, _, _, _, hl⟩

/-! The line table -/

theorem newlineEnds_append (pos : Nat) (a b : List Char) :
    newlineEnds pos (a ++ b) = newlineEnds pos a ++ newlineEnds (pos + byteLength a) b := by
  induction a generalizing pos with
  | nil => simp [newlineEnds, byteLength]
  | cons c a ih =>
    simp only [List.cons_append, newlineEnds, ih, byteLength, Nat.add_assoc]
    split <;> rfl

theorem newlineEnds_of_notMem {pos : Nat} (h : '\n' ∉ cs) : newlineEnds pos cs = [] := by
  induction cs generalizing pos with
  | nil => rfl
  | cons c cs ih =>
    obtain ⟨hc, hcs⟩ := not_or.1 (mt List.mem_cons.2 h)
    rw [newlineEnds, if_neg (Ne.symm hc), ih hcs]

theorem length_newlineEnds (pos : Nat) (cs : List Char) : (newlineEnds pos cs).length = cs.count '\n' := by
  induction cs generalizing pos with
  | nil => rfl
  | cons c cs ih =>
    by_cases hc : c = '\n' <;> simp [newlineEnds, hc, ih]

theorem le_of_mem_newlineEnds {pos n : Nat} (h : n ∈ newlineEnds pos cs) : n ≤ pos + byteLength cs := by
  induction cs generalizing pos with
  | nil => cases h
  | cons c cs ih =>
    rw [newlineEnds] at h
    simp only [byteLength]
    split at h
    · rcases List.mem_cons.1 h with rfl | h
      · omega
      · have := ih h
        omega
    · have := ih h
      omega

theorem ge_of_mem_newlineEnds {pos n : Nat} (h : n ∈ newlineEnds pos cs) : pos ≤ n := by
  induction cs generalizing pos with
  | nil => cases h
  | cons c cs ih =>
    rw [newlineEnds] at h
    split at h
    · rcases List.mem_cons.1 h with rfl | h
      · exact Nat.le_add_right _ _
      · exact Nat.le_of_add_right_le (ih h)
    · exact Nat.le_of_add_right_le (ih h)

theorem exists_starts_above (h : above = [] ∨ above.getLast? = some '\n') :
    ∃ starts, 0 :: newlineEnds 0 above = starts ++ [byteLength above] ∧ starts.length = above.count '\n' ∧
      ∀ n ∈ starts, n < byteLength above := by
  rcases h with rfl | hlast
  · exact ⟨[], rfl, rfl, by simp⟩
  · obtain ⟨front, rfl⟩ := List.getLast?_eq_some_iff.1 hlast
    refine ⟨0 :: newlineEnds 0 front, ?_, by simp [length_newlineEnds], fun n hn => ?_⟩
    · simp [newlineEnds_append, newlineEnds, byteLength]
    · rcases List.mem_cons.1 hn with rfl | hn
      · exact Text.byteLength_pos (by simp)
      · have := le_of_mem_newlineEnds hn
        rw [Text.byteLength_append]
        simp only [byteLength, show '\n'.utf8Size = 1 from rfl]
        omega

variable {s : Source}

/-- The table holds where the line starts, next to where it ends; nothing follows the end of the last line. -/
theorem LineAt.exists_lineStarts (h : LineAt s.chars o above line newline below) :
    ∃ front back, s.lineStarts = front ++ byteLength above :: byteLength (above ++ (line ++ newline)) :: back ∧
      front.length = above.count '\n' ∧ (∀ n ∈ front, n < o) ∧
      (∀ n ∈ back, byteLength (above ++ (line ++ newline)) ≤ n) ∧ (below = [] → back = []) := by
  obtain ⟨front, hfront, hlength, hle⟩ := exists_starts_above h.starts
  have hreach (n) (hn : n ∈ front) : n < o := Nat.lt_of_lt_of_le (hle n hn) h.reached
  have hproper := h.proper
  have hsize : s.size = byteLength (above ++ (line ++ newline)) + byteLength below := by
    rw [size, h.whole, Text.byteLength_append]
  have hstarts : 0 :: newlineEnds 0 s.chars = front ++ byteLength above ::
      newlineEnds (byteLength (above ++ line)) (newline ++ below) := by
    rw [h.whole]
    simp only [List.append_assoc, newlineEnds_append 0 above, ← List.cons_append, hfront, Nat.zero_add]
    simp only [newlineEnds_append _ line, newlineEnds_of_notMem h.single, List.nil_append, Text.byteLength_append]
    simp
  unfold lineStarts
  simp only [hstarts]
  rcases h.ends with rfl | ⟨rfl, rfl⟩
  · have hnext : newlineEnds (byteLength (above ++ line)) (['\n'] ++ below) =
        byteLength (above ++ (line ++ ['\n'])) :: newlineEnds (byteLength (above ++ (line ++ ['\n']))) below := by
      simp [newlineEnds, byteLength, Nat.add_assoc]
    rw [hnext]
    split
    case isTrue hmore =>
      refine ⟨front, _ ++ [s.size], List.append_assoc .., hlength, hreach, ?_, fun hbelow => ?_⟩
      · exact List.forall_mem_append.2 ⟨fun n => ge_of_mem_newlineEnds, by simp [hsize]⟩
      subst hbelow
      have hchars : s.chars ≠ [] := by simp [h.whole]
      simp [newlineEnds, hsize, hchars, byteLength] at hmore
    case isFalse =>
      refine ⟨front, _, rfl, hlength, hreach, fun n => ge_of_mem_newlineEnds, fun hbelow => ?_⟩
      rw [hbelow, newlineEnds]
  · -- Without a newline the last line is either the whole of an empty text or not empty.
    have hlast : byteLength above ≠ s.size ∨ s.chars = [] := by
      by_cases hline : line = []
      · exact .inr (by simp [h.whole, hline, h.proper])
      · have := Text.byteLength_pos hline
        simp only [hsize, Text.byteLength_append]
        omega
    rw [if_pos (by simpa [newlineEnds] using hlast)]
    exact ⟨front, [], by simp [newlineEnds, hsize, byteLength], hlength, hreach, by simp, fun _ => rfl⟩

theorem LineAt.start_eq (h : LineAt s.chars o above line newline below) :
    s.lineStarts[above.count '\n']? = some (byteLength above) := by
  obtain ⟨front, back, hstarts, hlength, -⟩ := h.exists_lineStarts
  simp [hstarts, ← hlength]

theorem LineAt.exists_lineText? (h : LineAt s.chars o above line newline below) :
    ∃ text, s.lineText? (above.count '\n' + 1) = some (String.ofList text) ∧ Shown (line ++ newline) text := by
  obtain ⟨front, back, hstarts, hlength, -⟩ := h.exists_lineStarts
  have hslice : slice? s.chars (byteLength above) (byteLength (above ++ (line ++ newline))) = some (line ++ newline) :=
    Text.slice?_eq_some_iff.2 ⟨above, below, h.whole, rfl, by simp⟩
  refine ⟨dropLineEnd (line ++ newline), ?_, shown_dropLineEnd _⟩
  simp [lineText?, hstarts, ← hlength, hslice, -Text.byteLength_append]

/-- A byte of a line stands before the end of the line, or it is the end of the text. -/
theorem LineAt.before_end (h : LineAt cs o above line newline below) :
    o < byteLength (above ++ (line ++ newline)) ∨ o = byteLength (above ++ (line ++ newline)) ∧ below = [] := by
  rcases h.ahead with hle | ⟨rfl, rfl⟩
  · rcases h.ends with rfl | ⟨rfl, rfl⟩
    · refine .inl (Nat.lt_of_le_of_lt hle ?_)
      simp [byteLength, Char.utf8Size_pos]
    · rw [List.append_nil]
      exact (Nat.lt_or_eq_of_le hle).imp_right fun heq => ⟨heq, rfl⟩
  · exact .inr ⟨by rw [h.whole, List.append_nil], rfl⟩

theorem idxOf?_append_cons {front : List Nat} (back : List Nat) (h : ∀ n ∈ front, n < o) :
    (front ++ o :: back).idxOf? o = some front.length := by
  induction front with
  | nil => simp [List.idxOf?_cons]
  | cons n front ih =>
    obtain ⟨hn, hfront⟩ := List.forall_mem_cons.1 h
    rw [List.cons_append, List.idxOf?_cons, ih hfront, if_neg (by simpa using Nat.ne_of_lt hn)]
    rfl

/-- The search finds the start of the line, or the end of the last line, or stops behind the start. -/
theorem LineAt.lineIndex_eq (h : LineAt s.chars o above line newline below) : s.lineIndex o = above.count '\n' := by
  obtain ⟨front, back, hstarts, hlength, hfront, hbehind, hback⟩ := h.exists_lineStarts
  have hlast : max s.lineCount 1 - 1 = front.length + back.length := by
    rw [lineCount, hstarts]
    simp only [List.length_append, List.length_cons]
    omega
  unfold lineIndex
  rw [hlast, hstarts, ← hlength]
  rcases Nat.eq_or_lt_of_le h.reached with heq | hlt
  · rw [heq, idxOf?_append_cons _ hfront]
    exact Nat.min_eq_left (Nat.le_add_right _ _)
  have hfront' : ∀ n ∈ front ++ [byteLength above], n < o := by
    intro n hn
    rcases List.mem_append.1 hn with hn | hn
    · exact hfront n hn
    · rwa [List.mem_singleton.1 hn]
  rw [← List.singleton_append, ← List.append_assoc]
  rcases h.before_end with hbefore | ⟨heq, hbelow⟩
  · have hnot : o ∉ front ++ [byteLength above] ++ byteLength (above ++ (line ++ newline)) :: back := by
      intro ho
      rcases List.mem_append.1 ho with ho | ho
      · exact Nat.lt_irrefl o (hfront' o ho)
      · rcases List.mem_cons.1 ho with rfl | ho
        · exact Nat.lt_irrefl _ hbefore
        · exact Nat.not_le.2 hbefore (hbehind o ho)
    rw [List.idxOf?_eq_none_iff.2 hnot, List.takeWhile_append_of_pos (by simpa using hfront'),
      List.takeWhile_cons_of_neg (by simpa using Nat.le_of_lt hbefore)]
    simp
  · rw [← heq, idxOf?_append_cons _ hfront', hback hbelow]
    simp

theorem LineAt.lineCol_eq {offset : Nat} (h : LineAt s.chars (min offset s.size) above line newline below) :
    s.lineCol offset = (above.count '\n' + 1, min offset s.size - byteLength above + 1) := by
  simp only [lineCol, h.lineIndex_eq, List.getD_eq_getElem?_getD, h.start_eq, Option.getD_some]

/-! Newlines -/

theorem newlinesBefore_append {a b : List Char} {n : Nat} (h : byteLength a ≤ n) :
    newlinesBefore (a ++ b) n = a.count '\n' + newlinesBefore b (n - byteLength a) := by
  induction a generalizing n with
  | nil => simp [byteLength]
  | cons c a ih =>
    have hpos := c.utf8Size_pos
    simp only [byteLength] at h
    rw [List.cons_append, newlinesBefore, if_neg (by omega), ih (by omega), List.count_cons, byteLength, Nat.sub_sub]
    simp only [beq_iff_eq]
    omega

theorem newlinesBefore_of_notMem {a b : List Char} {n : Nat} (ha : '\n' ∉ a) (h : n ≤ byteLength a) :
    newlinesBefore (a ++ b) n = 0 := by
  induction a generalizing n with
  | nil =>
    obtain rfl : n = 0 := by simpa [byteLength] using h
    cases b <;> rfl
  | cons c a ih =>
    obtain ⟨hc, ha⟩ := not_or.1 (mt List.mem_cons.2 ha)
    simp only [byteLength] at h
    rw [List.cons_append, newlinesBefore, if_neg (Ne.symm hc), ih ha (by omega)]
    simp

/-- A line is counted by the newlines before the byte; the one that ends the text does not count at the end. -/
theorem LineAt.count_above (h : LineAt s.chars o above line newline below) :
    above.count '\n' + 1 =
      (if o = s.size ∧ s.chars.getLast? = some '\n' then 0 else 1) + newlinesBefore s.chars o := by
  have hwhole := h.whole
  by_cases hle : o ≤ byteLength (above ++ line)
  · have hbefore : newlinesBefore s.chars o = above.count '\n' := by
      rw [hwhole, List.append_assoc, newlinesBefore_append h.reached, List.append_assoc, newlinesBefore_of_notMem h.single]
      · rfl
      · rw [Text.byteLength_append] at hle
        omega
    rw [hbefore, if_neg, Nat.add_comm]
    rintro ⟨hend, hlast⟩
    have hrest : newline ++ below = [] := Decidable.byContradiction fun hne => by
      have := Text.byteLength_pos hne
      simp only [size, hwhole, Text.byteLength_append] at hend hle this
      omega
    obtain ⟨rfl, rfl⟩ := List.append_eq_nil_iff.1 hrest
    rcases List.eq_nil_or_concat line with hline | ⟨front, c, rfl⟩
    · simp [hwhole, hline, h.proper] at hlast
    · have hc : c = '\n' := by simpa [hwhole] using hlast
      exact h.single (by simp [hc])
  · obtain ⟨rfl, hend⟩ := h.ahead.resolve_left hle
    have hnewline : newline = ['\n'] := h.ends.resolve_right fun hnone => by
      simp only [hwhole, hnone.1, List.append_nil] at hend
      omega
    subst hnewline
    have hbefore : newlinesBefore s.chars o = s.chars.count '\n' := by
      have := newlinesBefore_append (a := s.chars) (b := []) (Nat.le_of_eq hend.symm)
      simpa [newlinesBefore] using this
    rw [hbefore, if_pos ⟨hend, by simp [hwhole]⟩]
    simp [hwhole, List.count_eq_zero_of_not_mem h.single]

end Source

namespace Diagnostic

/-- Two fronts of one text share the shorter of them, by bytes and by characters. -/
theorem exists_shared_front {a b x y : List Char} (h : a ++ x = b ++ y) :
    ∃ m r, b = m ++ r ∧ byteLength m = min (byteLength a) (byteLength b) ∧ m.length = min a.length b.length := by
  rcases List.append_eq_append_iff.1 h with ⟨c, rfl, -⟩ | ⟨c, rfl, -⟩
  · exact ⟨a, c, rfl, by simp, by simp⟩
  · exact ⟨b, [], by simp, by simp, by simp⟩

/-- Characters of the line before the range are blank, and those of its text in the range are underlined. -/
theorem underline_eq {text before under post rest : List Char} {span : Span} (line : Nat)
    (h : before ++ (under ++ post) = text ++ rest) (hspan : span.length = byteLength under) :
    underline ⟨line, byteLength before + 1, String.ofList text⟩ span =
      (min before.length text.length, max 1 (min (before.length + under.length) text.length - before.length)) := by
  unfold underline
  simp only [String.toList_ofList, hspan, Nat.add_sub_cancel]
  rcases List.append_eq_append_iff.1 h with ⟨visible, rfl, hunder⟩ | ⟨past, rfl, -⟩
  · obtain ⟨m, r, rfl, hbytes, hlength⟩ := exists_shared_front hunder
    have hpad : slice? (before ++ (m ++ r)) 0 (byteLength before) = some before :=
      Text.slice?_eq_some_iff.2 ⟨[], m ++ r, rfl, rfl, by simp⟩
    have hwidth : slice? (before ++ (m ++ r)) (byteLength before) (byteLength before + byteLength m) = some m :=
      Text.slice?_eq_some_iff.2 ⟨before, r, by simp, rfl, rfl⟩
    have hstart : min (byteLength before) (byteLength (before ++ (m ++ r))) = byteLength before := by simp
    have hstop : min (byteLength before + byteLength under) (byteLength (before ++ (m ++ r))) =
        byteLength before + byteLength m := by
      rw [hbytes, Text.byteLength_append before]
      omega
    rw [hstart, hstop, hpad, hwidth]
    simp only [List.length_append] at hlength ⊢
    refine Prod.ext ?_ ?_ <;> simp only <;> omega
  · have hpad : slice? text 0 (byteLength text) = some text :=
      Text.slice?_eq_some_iff.2 ⟨[], [], by simp, rfl, by simp⟩
    have hwidth : slice? text (byteLength text) (byteLength text) = some [] :=
      Text.slice?_eq_some_iff.2 ⟨text, [], by simp, rfl, rfl⟩
    rw [Nat.min_eq_right (by simp), Nat.min_eq_right (Nat.le_add_right _ _), hpad, hwidth]
    simp only [List.length_append, List.length_nil]
    refine Prod.ext ?_ ?_ <;> simp only <;> omega

theorem head?_remarks (labels : List Label) (notes : List String) :
    ∀ c ∈ (String.join (labels.map showLabel) ++
      String.join (notes.map fun n => "\n   = help: " ++ n)).toList.head?, c = '\n' := by
  cases labels <;> cases notes <;> simp [showLabel, String.join_cons]

theorem display_locate {d : Diagnostic} {s : Source} {text : String} {line column : Nat} (hd : d.excerpt = none)
    (hcol : s.lineCol d.span.start = (line, column)) (htext : s.lineText? line = some text) :
    ∃ remarks, (d.locate s).display = "error: " ++ d.fault.classify.label ++ ": " ++ d.fault.message ++
      showExcerpt ⟨line, column, text⟩ d.span ++ remarks ∧ ∀ c ∈ remarks.toList.head?, c = '\n' := by
  unfold display locate
  simp only [hd, hcol, htext, Option.getD_some]
  exact ⟨_, String.append_assoc .., head?_remarks _ _⟩

end Diagnostic

open Source Diagnostic in
/-- A byte is placed by the newlines before it, on a line whose text exists, and a diagnostic located there leaves as many
blanks as characters stand before it on that text and underlines those of its range that stand on it. -/
theorem located_line_underlined (s : Source) (offset : Nat) :
    let o := min offset s.size
    ∃ line column above content newline below text, s.lineCol offset = (line, column) ∧
      LineAt s.chars o above content newline below ∧ Shown (content ++ newline) text.toList ∧
      line = (if o = s.size ∧ s.chars.getLast? = some '\n' then 0 else 1) + newlinesBefore s.chars o ∧
      column = o - byteLength above + 1 ∧
      s.lineStarts[line - 1]? = some (byteLength above) ∧ byteLength above + column - 1 = o ∧
      s.lineText? line = some text ∧
      ∀ (d : Diagnostic) (before under after : List Char), d.excerpt = none → s.chars = before ++ under ++ after →
        d.span = ⟨byteLength before, byteLength (before ++ under)⟩ → d.span.start = offset →
        ∃ remarks, (d.locate s).display =
          "error: " ++ d.fault.classify.label ++ ": " ++ d.fault.message ++
          ("\n  --> " ++ toString line ++ ":" ++ toString column ++
            "\n   |\n" ++ padLeft 3 (toString line) ++ " | " ++ text ++
            "\n    | " ++ String.ofList (
              List.replicate (min (before.length - above.length) text.length) ' ' ++
              List.replicate (max 1 (min (before ++ under).length (above.length + text.length) - before.length)) '^')) ++
          remarks ∧ ∀ c ∈ remarks.toList.head?, c = '\n' := by
  obtain ⟨above, content, newline, below, hl⟩ := exists_lineAt (Nat.min_le_right offset s.size)
  obtain ⟨text, htext, hshown⟩ := hl.exists_lineText?
  have hcol := hl.lineCol_eq
  have hreached := hl.reached
  refine ⟨_, _, above, content, newline, below, _, hcol, hl, by rwa [String.toList_ofList], hl.count_above, rfl,
    hl.start_eq, by omega, htext, ?_⟩
  intro d before under after hd hs hspan hstart
  obtain rfl : offset = byteLength before := by rw [← hstart, hspan]
  have hmin : min (byteLength before) s.size = byteLength before := Nat.min_eq_left (by simp [size, hs])
  simp only [hmin] at hreached hcol ⊢
  -- The text of the line and the characters up to the range are both fronts of what follows the lines above.
  obtain ⟨ends, hline, -⟩ := hshown
  have hwhole : above ++ (text ++ (ends ++ below)) = before ++ (under ++ after) := by
    rw [← List.append_assoc before, ← hs, hl.whole, hline]
    simp
  obtain ⟨lead, rfl, hrest⟩ := Text.exists_append_of_byteLength_le hwhole hreached
  have hcolumn : byteLength (above ++ lead) - byteLength above = byteLength lead := by simp
  have hlength : d.span.length = byteLength under := by
    simp [hspan, Span.length, ← Nat.add_assoc]
  rw [hcolumn] at hcol ⊢
  have hunder := underline_eq (above.count '\n' + 1) hrest.symm hlength
  obtain ⟨remarks, hdisplay, hhead⟩ := display_locate hd (hstart ▸ hcol) htext
  refine ⟨remarks, ?_, hhead⟩
  rw [hdisplay]
  unfold showExcerpt
  simp only [hunder, List.length_append, Nat.add_sub_cancel_left, String.length_ofList, Nat.add_assoc,
    Nat.add_min_add_left, Nat.add_sub_add_left]

open Diagnostic in
/-- A range over the end of its line, after a character of several bytes. -/
theorem located_line_underlined_wide :
    let s : Source := ⟨"é\r\n∂x y\r\n\n"⟩
    let d : Diagnostic := .of .emptyExpression ⟨7, 12⟩
    s.lineCol 7 = (2, 4) ∧ s.chars = "é\r\n∂".toList ++ "x y\r\n".toList ++ ['\n'] ∧
      ∃ above text remarks, s.lineStarts[1]? = some (byteLength above) ∧ s.lineText? 2 = some text ∧
        (d.locate s).display =
          "error: " ++ d.fault.classify.label ++ ": " ++ d.fault.message ++
          ("\n  --> " ++ toString 2 ++ ":" ++ toString 4 ++ "\n   |\n" ++ padLeft 3 (toString 2) ++ " | " ++ text ++
            "\n    | " ++ String.ofList (List.replicate (min (4 - above.length) text.length) ' ' ++
              List.replicate (max 1 (min 9 (above.length + text.length) - 4)) '^')) ++
          remarks ∧ ∀ c ∈ remarks.toList.head?, c = '\n' := by
  intro s d
  have hcol : s.lineCol 7 = (2, 4) := by decide +kernel
  have hchars : s.chars = "é\r\n∂".toList ++ "x y\r\n".toList ++ ['\n'] := by decide +kernel
  obtain ⟨line, column, above, -, -, -, text, hcol', -, -, -, -, hstart, -, htext, hdisplay⟩ :=
    located_line_underlined s 7
  obtain ⟨rfl, rfl⟩ := Prod.mk.inj (hcol.symm.trans hcol')
  obtain ⟨remarks, h⟩ := hdisplay d _ _ _ rfl hchars (by decide +kernel) rfl
  exact ⟨hcol, hchars, above, text, remarks, hstart, htext, h⟩

end Stencil
