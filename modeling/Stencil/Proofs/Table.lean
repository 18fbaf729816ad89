import Stencil.Table
set_option autoImplicit false

namespace Stencil

theorem sameName_iff (cs : Bool) (a b : String) :
    sameName cs a b = true ↔ (if cs then a.toList else a.toList.map Char.toLower) =
      if cs then b.toList else b.toList.map Char.toLower := by
  unfold sameName Text.sameIgnoringCase
  cases cs <;> simp [String.toList_inj]

theorem sameName_refl (cs : Bool) (a : String) : sameName cs a a = true := (sameName_iff cs a a).2 rfl

theorem sameName_trans {cs : Bool} {a b d : String} (hab : sameName cs a b = true) (hbd : sameName cs b d = true) :
    sameName cs a d = true :=
  (sameName_iff cs a d).2 (((sameName_iff cs a b).1 hab).trans ((sameName_iff cs b d).1 hbd))

theorem sameName_symm {cs : Bool} {a b : String} (h : sameName cs a b = true) : sameName cs b a = true :=
  (sameName_iff cs b a).2 ((sameName_iff cs a b).1 h).symm

namespace Table

variable {α : Type} {t : Table α} {cs : Bool} {n name : String}

/-- A lookup finds one of the entries whose names count as the one looked up, where there are any. -/
theorem lookup_cases (t : Table α) (cs : Bool) (name : String) :
    (∃ e ∈ t.entries, sameName cs e.1 name = true ∧ t.lookup cs name = some e.2) ∨
      ((∀ e ∈ t.entries, sameName cs e.1 name = false) ∧ t.lookup cs name = none) := by
  unfold lookup entry?
  cases hexact : t.entries.find? fun e => e.1 == name with
  | some e =>
    have hname : e.1 = name := by simpa using List.find?_some hexact
    exact .inl ⟨e, List.mem_of_find?_eq_some hexact, hname ▸ sameName_refl cs e.1, rfl⟩
  | none =>
    cases cs with
    | true =>
      have hnone := List.find?_eq_none.1 hexact
      exact .inr ⟨fun e he => by simpa [sameName] using hnone e he, rfl⟩
    | false =>
      dsimp only [Bool.false_eq_true, if_false]
      cases hcase : t.entries.find? fun e => Text.sameIgnoringCase e.1 name with
      | some e =>
        have hname : Text.sameIgnoringCase e.1 name = true := by simpa using List.find?_some hcase
        exact .inl ⟨e, List.mem_of_find?_eq_some hcase, hname, rfl⟩
      | none =>
        have hnone := List.find?_eq_none.1 hcase
        exact .inr ⟨fun e he => by simpa [sameName] using hnone e he, rfl⟩

theorem lookup_empty (cs : Bool) (name : String) : (empty : Table α).lookup cs name = none := by
  cases cs <;> rfl

theorem mem_of_lookup {a : α} (h : t.lookup cs name = some a) : ∃ n, (n, a) ∈ t.entries := by
  obtain ⟨e, he, -, hfound⟩ | ⟨-, hnone⟩ := t.lookup_cases cs name
  · cases hfound.symm.trans h
    exact ⟨e.1, he⟩
  · cases hnone.symm.trans h

theorem mem_set {a : α} {e : String × α} (h : e ∈ (t.set name a).entries) : e ∈ t.entries ∨ e = (name, a) := by
  unfold set at h
  revert h
  generalize t.entries = es
  intro h
  induction es with
  | nil => exact .inr (by simpa [setIn] using h)
  | cons x es ih =>
    unfold setIn at h
    split at h
    · rcases List.mem_cons.1 h with rfl | h
      · exact .inr rfl
      · exact .inl (List.mem_cons_of_mem x h)
    · rcases List.mem_cons.1 h with rfl | h
      · exact .inl List.mem_cons_self
      · exact (ih h).imp_left (List.mem_cons_of_mem x)

theorem mem_foldl_set {es : List (String × α)} {a : α}
    (h : (n, a) ∈ (es.foldl (fun t e => t.set e.1 e.2) t).entries) : (n, a) ∈ t.entries ∨ ∃ e ∈ es, e.2 = a := by
  induction es generalizing t with
  | nil => exact .inl h
  | cons e es ih =>
    rcases ih h with h | ⟨e', he', ha⟩
    · rcases mem_set h with h | h
      · exact .inl h
      · exact .inr ⟨e, .head _, (Prod.mk.inj h).2.symm⟩
    · exact .inr ⟨e', .tail _ he', ha⟩

theorem names_set (t : Table α) (name : String) (v : α) :
    (t.set name v).names = if name ∈ t.names then t.names else t.names ++ [name] := by
  obtain ⟨es⟩ := t
  unfold set names
  dsimp only
  induction es with
  | nil => simp [setIn]
  | cons e es ih =>
    rw [setIn]
    by_cases he : e.1 = name
    · simp [he]
    · rw [if_neg he, List.map_cons, ih, List.map_cons]
      by_cases hm : name ∈ es.map (·.1)
      · rw [if_pos hm, if_pos (List.mem_cons_of_mem _ hm)]
      · rw [if_neg hm, if_neg (by simpa [Ne.symm he] using hm), List.cons_append]

theorem names_set_of_fresh {a : α} (h : ∀ n ∈ t.names, n ≠ name) : (t.set name a).names = t.names ++ [name] := by
  rw [names_set, if_neg fun hname => h name hname rfl]

theorem entries_set_of_fresh {t : Table α} {n : String} (h : n ∉ t.names) (a : α) :
    (t.set n a).entries = t.entries ++ [(n, a)] := by
  obtain ⟨es⟩ := t
  unfold set names at *
  dsimp only at *
  induction es with
  | nil => rfl
  | cons e es ih =>
    obtain ⟨he, hes⟩ := not_or.1 (mt List.mem_cons.2 h)
    rw [setIn, if_neg (Ne.symm he), ih hes, List.cons_append]

theorem find?_setIn_of_false (a : α) {p : String → Bool} (hp : p n = false) (es : List (String × α)) :
    (setIn n a es).find? (fun e => p e.1) = es.find? fun e => p e.1 := by
  induction es with
  | nil => simp [setIn, hp]
  | cons e es ih =>
    unfold setIn
    split
    · next he => simp [he, hp]
    · rw [List.find?_cons, List.find?_cons, ih]

theorem find?_setIn_of_true (a : α) {p : String → Bool} (hp : p n = true) {es : List (String × α)}
    (hes : ∀ e ∈ es, p e.1 = true → e.1 = n) : (setIn n a es).find? (fun e => p e.1) = some (n, a) := by
  induction es with
  | nil => simp [setIn, hp]
  | cons e es ih =>
    obtain ⟨he, hes⟩ := List.forall_mem_cons.1 hes
    unfold setIn
    split
    · simp [hp]
    · next hne =>
      have hfalse : p e.1 = false := Bool.eq_false_iff.2 fun htrue => hne (he htrue)
      rw [List.find?_cons, hfalse]
      exact ih hes

theorem isSome_get? {t : Table α} {n : String} : (t.get? n).isSome = true ↔ n ∈ t.names := by
  unfold get? names
  simp [List.find?_isSome]

theorem get?_set (t : Table α) (n m : String) (a : α) : (t.set n a).get? m = if n = m then some a else t.get? m := by
  unfold get? set
  by_cases h : n = m
  · subst h
    rw [if_pos rfl, find?_setIn_of_true a (p := (· == n)) (beq_self_eq_true n) fun e _ he => eq_of_beq he]
    rfl
  · rw [if_neg h, find?_setIn_of_false a (p := (· == m)) (beq_false_of_ne h)]

theorem get?_foldl_set (ns : List String) (t : Table α) (m : String) (a : α) :
    (ns.foldl (fun t n => t.set n a) t).get? m = if m ∈ ns then some a else t.get? m := by
  induction ns generalizing t with
  | nil => simp
  | cons n ns ih =>
    rw [List.foldl_cons, ih, get?_set]
    by_cases hm : m ∈ ns
    · simp [hm]
    · simp [hm, eq_comm]

theorem lookup_set_of_apart (t : Table α) (a : α) (h : sameName cs n name = false) :
    (t.set n a).lookup cs name = t.lookup cs name := by
  have hexact : (n == name) = false := by
    refine Bool.eq_false_iff.2 fun heq => ?_
    rw [eq_of_beq heq, sameName_refl] at h
    cases h
  unfold lookup entry? set
  dsimp only
  rw [find?_setIn_of_false a (p := (· == name)) hexact]
  cases cs with
  | true => rfl
  | false => rw [find?_setIn_of_false a (p := (Text.sameIgnoringCase · name)) h]

theorem lookup_set_of_same (a : α) (h : sameName cs n name = true)
    (ht : ∀ e ∈ t.entries, sameName cs e.1 name = true → e.1 = n) : (t.set n a).lookup cs name = some a := by
  unfold lookup entry? set
  dsimp only
  by_cases hexact : n = name
  · subst hexact
    rw [find?_setIn_of_true a (p := (· == n)) (beq_self_eq_true n) fun e _ he => eq_of_beq he]
    rfl
  · have hnone : t.entries.find? (fun e => e.1 == name) = none := by
      refine List.find?_eq_none.2 fun e he heq => hexact ?_
      have hname : e.1 = name := eq_of_beq heq
      rw [← ht e he (hname ▸ sameName_refl cs e.1), hname]
    rw [find?_setIn_of_false a (p := (· == name)) (beq_false_of_ne hexact), hnone]
    cases cs with
    | true => exact absurd (eq_of_beq h) hexact
    | false =>
      dsimp only [Bool.false_eq_true, if_false]
      rw [find?_setIn_of_true a (p := (Text.sameIgnoringCase · name)) h ht]
      rfl

theorem entry?_map {β : Type} (f : α → β) (t : Table α) (cs : Bool) (name : String) :
    Table.entry? (t.map f) cs name = (t.entry? cs name).map fun e => (e.1, f e.2) := by
  have hfind (p : String → Bool) : (t.map f).entries.find? (fun e => p e.1) =
      (t.entries.find? fun e => p e.1).map fun e => (e.1, f e.2) := by
    unfold map
    rw [List.find?_map]
    rfl
  unfold entry?
  rw [hfind (· == name)]
  cases t.entries.find? fun e => e.1 == name with
  | some e => rfl
  | none =>
    cases cs with
    | true => rfl
    | false => exact hfind (Text.sameIgnoringCase · name)

theorem lookup_map {β : Type} (f : α → β) (t : Table α) (cs : Bool) (name : String) :
    (t.map f).lookup cs name = (t.lookup cs name).map f := by
  unfold lookup
  rw [entry?_map, Option.map_map, Option.map_map]
  rfl

end Table

end Stencil
