import Stencil.Directive.Standard
import Stencil.Proofs.Except
import Stencil.Proofs.Table
set_option autoImplicit false

namespace Stencil

variable {α : Type}

structure Directive.Unambiguous (ds : List (Directive α)) : Prop where
  distinct : (ds.map (·.name)).Nodup
  valid : ∀ d ∈ ds, d.name ≠ "" ∧ ∀ c ∈ d.name.toList, Text.isBlank c = false
  unshared : ∀ d ∈ ds, d.name ∉ sharedWords
  /-- No control word that is not shared is the name of a directive. -/
  apart : ∀ d ∈ ds, ∀ w ∈ d.words, w ∉ sharedWords → ∀ d' ∈ ds, w ≠ d'.name
  /-- No control word that is not shared belongs to two directives. -/
  owned : ∀ d ∈ ds, ∀ d' ∈ ds, ∀ w ∈ d.words, w ∈ d'.words → w ∉ sharedWords → d.name = d'.name

theorem Directive.unambiguous_append {ds : List (Directive α)} {d : Directive α} (h : Unambiguous ds) :
    Unambiguous (ds ++ [d]) ↔
      (d.name ≠ "" ∧ ∀ c ∈ d.name.toList, Text.isBlank c = false) ∧ (∀ d' ∈ ds, d'.name ≠ d.name) ∧
      d.name ∉ sharedWords ∧ (∀ d' ∈ ds, d.name ∉ d'.words) ∧
      ∀ w ∈ d.words, w ∉ sharedWords → w ≠ d.name ∧ (∀ d' ∈ ds, d'.name ≠ w) ∧ ∀ d' ∈ ds, w ∉ d'.words := by
  constructor
  · intro hall
    have hd : d ∈ ds ++ [d] := List.mem_append_right ds List.mem_cons_self
    have hds : ∀ d' ∈ ds, d' ∈ ds ++ [d] := fun d' => List.mem_append_left [d]
    have hfresh : ∀ d' ∈ ds, d'.name ≠ d.name := by
      have := hall.distinct
      rw [List.map_append, List.nodup_append] at this
      exact fun d' hd' => this.2.2 _ (List.mem_map_of_mem hd') _ (by simp)
    refine ⟨hall.valid d hd, hfresh, hall.unshared d hd, fun d' hd' hw => ?_, fun w hw hshared => ⟨?_, ?_, ?_⟩⟩
    · exact hall.apart d' (hds d' hd') _ hw (hall.unshared d hd) d hd rfl
    · exact hall.apart d hd w hw hshared d hd
    · exact fun d' hd' heq => hall.apart d hd w hw hshared d' (hds d' hd') heq.symm
    · exact fun d' hd' hw' => hfresh d' hd' (hall.owned d' (hds d' hd') d hd w hw' hw hshared)
  · rintro ⟨hvalid, hfresh, hunshared, hname, hwords⟩
    refine ⟨?_, ?_, ?_, ?_, ?_⟩
    · rw [List.map_append, List.nodup_append]
      exact ⟨h.distinct, by simp, by simpa using hfresh⟩
    · have := h.valid
      grind
    · have := h.unshared
      grind
    · have := h.apart
      grind
    · have := h.owned
      grind

namespace Registry

def all (r : Registry α) : List (Directive α) := r.directives.entries.map (·.2)

/-- A registry of unambiguous directives that records whose each control word is. -/
structure Sound (r : Registry α) : Prop where
  names : r.names = r.all.map (·.name)
  unambiguous : Directive.Unambiguous r.all
  owners : ∀ w n, r.words.get? w = some n ↔ w ∉ sharedWords ∧ ∃ d ∈ r.all, d.name = n ∧ w ∈ d.words

theorem sound_empty : (empty : Registry α).Sound where
  names := rfl
  unambiguous := ⟨.nil, by simp [all, empty, Table.empty], by simp [all, empty, Table.empty],
    by simp [all, empty, Table.empty], by simp [all, empty, Table.empty]⟩
  owners := by simp [all, empty, Table.empty, Table.get?]

/-! ### What is refused -/

variable {r : Registry α} {d : Directive α} {n w : String}

theorem contains_iff : r.contains n = true ↔ n ∈ r.names := Table.isSome_get?

theorem ite_some_eq_none {β : Type} {p : Prop} [Decidable p] {b : β} {x : Option β} :
    (if p then some b else x) = none ↔ ¬ p ∧ x = none := by
  split <;> simp [*]

theorem nameFault?_eq_none : r.nameFault? n = none ↔
    (n ≠ "" ∧ ∀ c ∈ n.toList, Text.isBlank c = false) ∧ n ∉ r.names ∧ n ∉ sharedWords ∧ r.words.get? n = none := by
  rw [nameFault?, ite_some_eq_none, ite_some_eq_none, ite_some_eq_none, contains_iff, Option.map_eq_none_iff]
  simp

theorem wordFault?_eq_none : r.wordFault? n w = none ↔
    (w ∉ sharedWords → w ≠ n ∧ w ∉ r.names ∧ r.words.get? w = none) := by
  unfold wordFault?
  split
  · next h => simp [List.contains_iff_mem.1 h]
  · next h =>
    rw [ite_some_eq_none, Option.map_eq_none_iff]
    simp_all [← contains_iff, and_assoc]

theorem fault?_eq_none : r.fault? d = none ↔ r.nameFault? d.name = none ∧ ∀ w ∈ d.words, r.wordFault? d.name w = none := by
  unfold fault?
  simp [List.findSome?_eq_none_iff]

theorem Sound.word_free (h : r.Sound) (hw : w ∉ sharedWords) : r.words.get? w = none ↔ ∀ d ∈ r.all, w ∉ d.words := by
  constructor
  · intro hnone d hd hmem
    have := (h.owners w d.name).2 ⟨hw, d, hd, rfl, hmem⟩
    rw [hnone] at this
    cases this
  · intro hfree
    refine Option.eq_none_iff_forall_ne_some.2 fun n hn => ?_
    obtain ⟨-, d, hd, -, hmem⟩ := (h.owners w n).1 hn
    exact hfree d hd hmem

theorem Sound.mem_names (h : r.Sound) : n ∈ r.names ↔ ∃ d ∈ r.all, d.name = n := by
  rw [h.names, List.mem_map]

/-- A directive is refused exactly if it would make the directives ambiguous. -/
theorem Sound.fault?_eq_none_iff (h : r.Sound) : r.fault? d = none ↔ Directive.Unambiguous (r.all ++ [d]) := by
  rw [fault?_eq_none, nameFault?_eq_none, Directive.unambiguous_append h.unambiguous]
  simp only [wordFault?_eq_none, h.mem_names, not_exists, not_and]
  simp only [and_assoc, ne_eq]
  refine and_congr_right fun _ => and_congr_right fun _ => and_congr_right fun _ => and_congr_right fun hshared => ?_
  refine and_congr (h.word_free hshared) (forall₂_congr fun w _ => forall_congr' fun hw => ?_)
  exact and_congr_right fun _ => and_congr_right fun _ => h.word_free hw

/-! ### Registering -/

theorem register_eq_ok {r' : Registry α} (h : r.register d = .ok r') : r.fault? d = none ∧ r' = r.insert d := by
  unfold register at h
  split at h
  · cases h
  · next hnone => exact ⟨hnone, by cases h; rfl⟩

theorem entries_insert (hd : r.fault? d = none) :
    (r.insert d).directives.entries = r.directives.entries ++ [(d.name, d)] :=
  Table.entries_set_of_fresh (nameFault?_eq_none.1 (fault?_eq_none.1 hd).1).2.1 d

theorem all_insert (hd : r.fault? d = none) : (r.insert d).all = r.all ++ [d] := by
  simp [all, entries_insert hd]

theorem get?_words_insert (r : Registry α) (d : Directive α) (w : String) : (r.insert d).words.get? w =
    if w ∈ d.words ∧ w ∉ sharedWords then some d.name else r.words.get? w := by
  unfold insert
  rw [Table.get?_foldl_set]
  simp

theorem Sound.insert (h : r.Sound) (hd : r.fault? d = none) : (r.insert d).Sound where
  names := by
    have hnames := h.names
    unfold Registry.names Table.names all at *
    simp [entries_insert hd, hnames]
  unambiguous := all_insert hd ▸ h.fault?_eq_none_iff.1 hd
  owners w n := by
    obtain ⟨-, -, -, -, hwords⟩ := (Directive.unambiguous_append h.unambiguous).1 (h.fault?_eq_none_iff.1 hd)
    rw [get?_words_insert, all_insert hd]
    simp only [List.mem_append, List.mem_singleton]
    split
    · next hw =>
      -- No other directive has the word.
      have hother := (hwords w hw.1 hw.2).2.2
      constructor
      · rintro ⟨⟩
        exact ⟨hw.2, d, .inr rfl, rfl, hw.1⟩
      · rintro ⟨-, d', hd' | rfl, rfl, hmem⟩
        · exact absurd hmem (hother d' hd')
        · rfl
    · next hw =>
      rw [h.owners]
      refine and_congr_right fun hshared => exists_congr fun d' => ?_
      constructor
      · exact fun ⟨hd', hrest⟩ => ⟨.inl hd', hrest⟩
      · rintro ⟨hd' | rfl, hname, hmem⟩
        · exact ⟨hd', hname, hmem⟩
        · exact absurd ⟨hmem, hshared⟩ hw

theorem Sound.registerAll {ds : List (Directive α)} {r' : Registry α} (h : r.Sound)
    (hr : ds.foldlM register r = .ok r') : r'.Sound ∧ r' = ds.foldl Registry.insert r := by
  induction ds generalizing r with
  | nil =>
    cases hr
    exact ⟨h, rfl⟩
  | cons d ds ih =>
    rw [List.foldlM_cons] at hr
    obtain ⟨r₁, hr₁, hr⟩ := exists_of_bind_ok hr
    obtain ⟨hnone, rfl⟩ := register_eq_ok hr₁
    exact ih (h.insert hnone) hr

theorem Sound.insertAll {ds : List (Directive α)} (h : r.Sound) (hr : (ds.foldlM register r).toBool = true) :
    (ds.foldl Registry.insert r).Sound := by
  cases hr' : ds.foldlM register r with
  | error e => simp [hr', Except.toBool] at hr
  | ok r' =>
    obtain ⟨hsound, rfl⟩ := h.registerAll hr'
    exact hsound

theorem Sound.refused_iff (h : r.Sound) : (∃ e, r.register d = .error e) ↔ ¬ Directive.Unambiguous (r.all ++ [d]) := by
  rw [← h.fault?_eq_none_iff]
  unfold register
  split <;> simp [*]

end Registry

theorem Directives.sound_standard : Directives.standard.Sound := by
  unfold Directives.standard
  exact Registry.sound_empty.insertAll (by decide +kernel)

/-- However directives are registered, with the standard ones or without, names and control words stay unambiguous:
names are single words, no two alike and none of them shared; a control word that is not shared is no name and has one
owner, which is on record. A directive is refused exactly if it would break this, and is otherwise the last one. -/
theorem Registry.registered_unambiguous {start r : Directives} (hstart : start = .empty ∨ start = .standard)
    {ds : List (Directive (Invocation → Compile Step))} (h : ds.foldlM Registry.register start = .ok r) :
    r.names = r.all.map (·.name) ∧ Directive.Unambiguous r.all ∧
    (∀ w n, r.words.get? w = some n ↔ w ∉ sharedWords ∧ ∃ d ∈ r.all, d.name = n ∧ w ∈ d.words) ∧
    (∀ d, (∃ e, r.register d = .error e) ↔ ¬ Directive.Unambiguous (r.all ++ [d])) ∧
    ∀ d r', r.register d = .ok r' → r'.all = r.all ++ [d] := by
  have hsound : start.Sound := by
    rcases hstart with rfl | rfl
    · exact Registry.sound_empty
    · exact Directives.sound_standard
  obtain ⟨hr, -⟩ := hsound.registerAll h
  refine ⟨hr.names, hr.unambiguous, hr.owners, fun d => hr.refused_iff, fun d r' hd => ?_⟩
  obtain ⟨hnone, rfl⟩ := Registry.register_eq_ok hd
  exact Registry.all_insert hnone

theorem Registry.registered_unambiguous_loop :
    let loop : Directive (Invocation → Compile Step) := { Directive.block with name := "loop", words := ["else", "done"] }
    let r := Directives.standard.insert loop
    [loop].foldlM Registry.register Directives.standard = .ok r ∧ Directive.Unambiguous r.all ∧
      ((∃ e, r.register { loop with name := "done" } = .error e) ↔
        ¬ Directive.Unambiguous (r.all ++ [{ loop with name := "done" }])) := by
  intro loop r
  have hnone : (Directives.standard.fault? loop).isNone = true := by decide +kernel
  have h : [loop].foldlM Registry.register Directives.standard = .ok r := by
    rw [List.foldlM_cons, Registry.register, Option.isNone_iff_eq_none.1 hnone]
    rfl
  obtain ⟨-, hall, -, hrefused, -⟩ := Registry.registered_unambiguous (.inr rfl) h
  exact ⟨h, hall, hrefused _⟩

end Stencil
