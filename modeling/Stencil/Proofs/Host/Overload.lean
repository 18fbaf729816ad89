import Mathlib.Data.List.Forall2
import Mathlib.Data.List.Pairwise
import Stencil.Host.Overload
import Stencil.Proofs.Value.Kind
/-!
Which method is chosen. The first whose parameters are exactly the kinds of the arguments wins; without one, the
methods with the most exact parameters are left of those that the arguments can be passed to. The order of the methods
matters only where two of them have the same parameters.
-/
set_option autoImplicit false

namespace Stencil

theorem Kind.implicitCost_eq_zero {a p : Kind} : a.implicitCost p = some 0 ↔ a == p := by
  unfold implicitCost
  split
  · next hsame => simp [hsame]
  · next hsame =>
    simp only [hsame, Bool.false_eq_true, iff_false]
    split <;> simp

namespace Selection

def Fits (params args : List Kind) : Prop := List.Forall₂ (fun p a => (a == p) = true) params args

def Passes (params args : List Kind) : Prop :=
  List.Forall₂ (fun p a => (Kind.implicitCost a p).isSome) params args

instance (params args : List Kind) : Decidable (Fits params args) :=
  inferInstanceAs (Decidable (List.Forall₂ _ params args))

instance (params args : List Kind) : Decidable (Passes params args) :=
  inferInstanceAs (Decidable (List.Forall₂ _ params args))

def exactCount (params args : List Kind) : Nat := (params.zip args).countP fun x => x.2 == x.1

def ofArity (args : List Kind) (ms : List Method) : List Method :=
  ms.filter fun m => m.params.length == args.length

def takers (args : List Kind) (ms : List Method) : List Method :=
  (ofArity args ms).filter fun m => decide (Passes m.params args)

def Leads (args : List Kind) (ms : List Method) (m : Method) : Prop :=
  ∀ x ∈ ms, exactCount x.params args ≤ exactCount m.params args

instance (args : List Kind) (ms : List Method) (m : Method) : Decidable (Leads args ms m) :=
  inferInstanceAs (Decidable (∀ x ∈ ms, _))

/-- The methods that the arguments can be passed to with the most exact parameters. -/
def leaders (args : List Kind) (ms : List Method) : List Method :=
  (takers args ms).filter fun m => decide (Leads args (takers args ms) m)

def Apart (m n : Method) : Prop := ¬ Fits m.params n.params

instance (m n : Method) : Decidable (Apart m n) := inferInstanceAs (Decidable (¬ _))

variable {ms ms' : List Method} {m : Method} {params params' args : List Kind}

/-! ### Parameters and arguments -/

theorem fits_iff : fits params args = true ↔ Fits params args := by
  induction params generalizing args with
  | nil => cases args <;> simp [fits, Fits]
  | cons p params ih =>
    cases args with
    | nil => simp [fits, Fits]
    | cons a args =>
      rw [fits, Bool.and_eq_true, ih]
      unfold Fits
      rw [List.forall₂_cons]

theorem Fits.passes (h : Fits params args) : Passes params args :=
  h.imp fun p a hsame => by simp [Kind.implicitCost_eq_zero.2 hsame]

theorem Fits.same (h : Fits params args) (h' : Fits params' args) : Fits params params' := by
  induction h generalizing params' with
  | nil => cases h'; exact .nil
  | cons hp _ ih =>
    cases h' with
    | cons hp' hrest => exact .cons (Kind.same_trans (Kind.same_comm _ _ ▸ hp') hp) (ih hrest)

theorem fits_comm : Fits params args ↔ Fits args params := by
  have hflip {as bs : List Kind} (h : Fits as bs) : Fits bs as :=
    List.Forall₂.flip (h.imp fun a b hsame => (Kind.same_comm a b).trans hsame)
  exact ⟨hflip, hflip⟩

instance : Std.Symm Apart := ⟨fun _ _ h hfits => h (fits_comm.1 hfits)⟩

/-- The score counts the exact parameters of the methods that the arguments can be passed to. -/
theorem score?_eq (params args : List Kind) :
    score? params args = if Passes params args then some (exactCount params args) else Option.none := by
  induction params generalizing args with
  | nil => cases args <;> simp [score?, Passes, exactCount]
  | cons p params ih =>
    cases args with
    | nil => simp [score?, Passes]
    | cons a args =>
      rw [score?, ih]
      cases hcost : a.implicitCost p with
      | none => simp [Passes, hcost]
      | some cost =>
        have hzero : (cost = 0) ↔ (a == p) = true := by
          rw [← Kind.implicitCost_eq_zero, hcost, Option.some.injEq]
        by_cases hrest : Passes params args
        · have hall : Passes (p :: params) (a :: args) := .cons (by simp [hcost]) hrest
          simp [hrest, hall, exactCount, List.countP_cons, hzero]
          split <;> rfl
        · have hnot : ¬ Passes (p :: params) (a :: args) := fun h => hrest (List.forall₂_cons.1 h).2
          simp [hrest, hnot]

/-! ### The methods that are left -/

theorem exists_top {l : List Method} (hl : l ≠ []) (args : List Kind) :
    ∃ x ∈ l, Leads args l x ∧ (l.map fun m => exactCount m.params args).foldl max 0 = exactCount x.params args := by
  obtain ⟨top, htop⟩ : ∃ top, (l.map fun m => exactCount m.params args).max? = some top :=
    Option.isSome_iff_exists.1 (by simpa using hl)
  obtain ⟨hattained, hbound⟩ := List.max?_eq_some_iff.1 htop
  obtain ⟨x, hx, rfl⟩ := List.mem_map.1 hattained
  refine ⟨x, hx, fun y hy => hbound _ (List.mem_map_of_mem hy), ?_⟩
  rw [List.foldl_max, htop, Option.getD_some, Nat.zero_max]

theorem eq_top_iff {l : List Method} (hm : m ∈ l) :
    exactCount m.params args = (l.map fun x => exactCount x.params args).foldl max 0 ↔ Leads args l m := by
  obtain ⟨x, hx, hleads, htop⟩ := exists_top (List.ne_nil_of_mem hm) args
  rw [htop]
  constructor
  · intro heq y hy
    rw [heq]
    exact hleads y hy
  · exact fun h => Nat.le_antisymm (hleads m hm) (h x hx)

/-- The most exact parameters that any of the methods has. -/
def top (args : List Kind) (l : List Method) : Nat := (l.map fun m => exactCount m.params args).foldl max 0

/-- The methods that reach the top, and the top. -/
def topmost (args : List Kind) (l : List Method) : List Method × Nat :=
  (l.filter fun m => exactCount m.params args == top args l, top args l)

theorem topmost_eq_nil_iff {l : List Method} : (topmost args l).1 = [] ↔ l = [] := by
  refine ⟨fun h => ?_, fun h => by rw [h]; rfl⟩
  by_contra hne
  obtain ⟨x, hx, -, htop⟩ := exists_top hne args
  exact List.filter_eq_nil_iff.1 h x hx (beq_iff_eq.2 htop.symm)

theorem top_append (args : List Kind) (l : List Method) (m : Method) :
    top args (l ++ [m]) = max (top args l) (exactCount m.params args) := by
  simp [top]

theorem le_top {l : List Method} (h : m ∈ l) : exactCount m.params args ≤ top args l := by
  obtain ⟨x, -, hleads, htop⟩ := exists_top (List.ne_nil_of_mem h) args
  exact Nat.le_trans (hleads m h) (Nat.le_of_eq htop.symm)

/-- One more method takes the place of those at the top, joins them, or is left out. -/
theorem consider_topmost (l : List Method) (hm : Passes m.params args) :
    consider args (topmost args l) m = topmost args (l ++ [m]) := by
  have hscore : score? m.params args = some (exactCount m.params args) := by rw [score?_eq, if_pos hm]
  have hempty : (topmost args l).1.isEmpty = true ↔ l = [] := List.isEmpty_iff.trans topmost_eq_nil_iff
  have hafter : topmost args (l ++ [m]) =
      let most := max (top args l) (exactCount m.params args)
      (l.filter (fun x => exactCount x.params args == most) ++
        if exactCount m.params args = most then [m] else [], most) := by
    simp only [topmost, top_append, List.filter_append, List.filter_cons, List.filter_nil, beq_iff_eq]
  have hscored : (topmost args l).2 = top args l := rfl
  simp only [consider, hscore, hempty, hafter, hscored, Bool.or_eq_true, decide_eq_true_eq]
  by_cases hnew : l = [] ∨ top args l < exactCount m.params args
  · have hmost : max (top args l) (exactCount m.params args) = exactCount m.params args := by
      rcases hnew with rfl | hlt
      · exact Nat.zero_max _
      · exact Nat.max_eq_right (Nat.le_of_lt hlt)
    have hbefore : l.filter (fun x => exactCount x.params args == exactCount m.params args) = [] := by
      refine List.filter_eq_nil_iff.2 fun x hx heq => ?_
      have hlt := hnew.resolve_left (List.ne_nil_of_mem hx)
      exact absurd (le_top hx) (Nat.not_le.2 (beq_iff_eq.1 heq ▸ hlt))
    rw [if_pos hnew, hmost, hbefore, if_pos rfl, List.nil_append]
  · have hmost : max (top args l) (exactCount m.params args) = top args l :=
      Nat.max_eq_left (Nat.not_lt.1 fun hlt => hnew (.inr hlt))
    rw [if_neg hnew, hmost]
    by_cases htie : exactCount m.params args = top args l
    · rw [if_pos htie, if_pos htie]
      rfl
    · rw [if_neg htie, if_neg htie, List.append_nil]
      rfl

/-- Looking at methods one after the other keeps those that reach the top of all methods so far. -/
theorem foldl_consider (args : List Kind) (l ms : List Method) :
    ms.foldl (consider args) (topmost args l) =
      topmost args (l ++ ms.filter fun m => decide (Passes m.params args)) := by
  induction ms generalizing l with
  | nil => rw [List.filter_nil, List.append_nil, List.foldl_nil]
  | cons m ms ih =>
    rw [List.foldl_cons]
    by_cases hm : Passes m.params args
    · have hkept : (m :: ms).filter (fun m => decide (Passes m.params args)) =
          [m] ++ ms.filter fun m => decide (Passes m.params args) := List.filter_cons_of_pos (decide_eq_true hm)
      rw [consider_topmost l hm, ih, hkept, List.append_assoc]
    · have hskip : consider args (topmost args l) m = topmost args l := by
        simp only [consider, score?_eq, if_neg hm]
      have hleft : (m :: ms).filter (fun m => decide (Passes m.params args)) =
          ms.filter fun m => decide (Passes m.params args) := List.filter_cons_of_neg (by simpa using hm)
      rw [hskip, ih, hleft]

theorem best_eq (args : List Kind) (ms : List Method) :
    best args ms = (topmost args (ms.filter fun m => decide (Passes m.params args))).1 :=
  congrArg Prod.fst (foldl_consider args [] ms)

theorem best_ofArity (args : List Kind) (ms : List Method) : best args (ofArity args ms) = leaders args ms := by
  rw [best_eq]
  refine List.filter_congr fun m hm => ?_
  rw [Bool.eq_iff_iff, decide_eq_true_iff, beq_iff_eq]
  exact eq_top_iff hm

inductive Chosen : List Method → Selection → Prop
  | nil : Chosen [] .none
  | one (m : Method) : Chosen [m] (.converted m)
  | several {l : List Method} : 1 < l.length → Chosen l (.ambiguous l)

theorem select_cases (ms : List Method) (args : List Kind) :
    (∃ m, (ofArity args ms).find? (fun m => fits m.params args) = some m ∧ select ms args = .exact m) ∨
      (∀ x ∈ ofArity args ms, ¬ Fits x.params args) ∧ Chosen (leaders args ms) (select ms args) := by
  have harity : ms.filter (fun m => m.params.length == args.length) = ofArity args ms := rfl
  unfold select
  dsimp only
  rw [harity, best_ofArity]
  cases hfind : (ofArity args ms).find? fun m => fits m.params args with
  | some m => exact .inl ⟨m, rfl, rfl⟩
  | none =>
    refine .inr ⟨fun x hx hfits => List.find?_eq_none.1 hfind x hx (fits_iff.2 hfits), ?_⟩
    dsimp only
    generalize leaders args ms = l
    cases l with
    | nil => exact .nil
    | cons m l =>
      cases l with
      | nil => exact .one m
      | cons m' l => exact .several (by simp)

namespace Chosen

variable {l : List Method} {s : Selection}

theorem eq_none_iff (h : Chosen l s) : s = .none ↔ l = [] := by
  cases h with
  | several hl => simp [List.ne_nil_of_length_pos (Nat.zero_lt_of_lt hl)]
  | _ => simp

theorem eq_converted_iff (h : Chosen l s) : s = .converted m ↔ l = [m] := by
  cases h with
  | several hl =>
    simp only [reduceCtorEq, false_iff]
    rintro rfl
    exact absurd hl (Nat.lt_irrefl 1)
  | _ => simp

theorem eq_ambiguous_iff {l' : List Method} (h : Chosen l s) : s = .ambiguous l' ↔ l' = l ∧ 1 < l'.length := by
  cases h with
  | several hl =>
    rw [ambiguous.injEq]
    exact ⟨fun heq => heq ▸ ⟨rfl, hl⟩, fun heq => heq.1.symm⟩
  | nil => simp +contextual
  | one m => simp +contextual

theorem ne_exact (h : Chosen l s) : s ≠ .exact m := by
  cases h <;> simp

end Chosen

/-- Outcomes that are the same up to the order in which methods are listed. -/
inductive Alike : Selection → Selection → Prop
  | exact (m : Method) : Alike (.exact m) (.exact m)
  | converted (m : Method) : Alike (.converted m) (.converted m)
  | none : Alike .none .none
  | ambiguous {l l' : List Method} : l.Perm l' → Alike (.ambiguous l) (.ambiguous l')

theorem Chosen.alike {l l' : List Method} {s s' : Selection} (h : Chosen l s) (h' : Chosen l' s')
    (hperm : l.Perm l') : s.Alike s' := by
  cases h with
  | nil =>
    obtain rfl := h'.eq_none_iff.2 hperm.nil_eq.symm
    exact .none
  | one m =>
    obtain rfl := h'.eq_converted_iff.2 (List.perm_singleton.1 hperm.symm)
    exact .converted m
  | several hl =>
    obtain rfl := h'.eq_ambiguous_iff.2 ⟨rfl, hperm.length_eq ▸ hl⟩
    exact .ambiguous hperm

theorem fits_of_find? (h : (ofArity args ms).find? (fun m => fits m.params args) = some m) :
    m ∈ ofArity args ms ∧ Fits m.params args := by
  have hfits := List.find?_some h
  exact ⟨List.mem_of_find?_eq_some h, fits_iff.1 hfits⟩

theorem mem_takers_of_select (h : select ms args = .exact m ∨ select ms args = .converted m) : m ∈ takers args ms := by
  obtain ⟨m', hfind, hselect⟩ | ⟨-, hchosen⟩ := select_cases ms args
  · obtain rfl : m' = m := by simpa [hselect] using h
    obtain ⟨hm, hfits⟩ := fits_of_find? hfind
    exact List.mem_filter.2 ⟨hm, decide_eq_true hfits.passes⟩
  · have hleft := hchosen.eq_converted_iff.1 (h.resolve_left hchosen.ne_exact)
    have hm : m ∈ leaders args ms := by simp [hleft]
    exact (List.mem_filter.1 hm).1

theorem passes_of_select (h : select ms args = .exact m ∨ select ms args = .converted m) : Passes m.params args :=
  of_decide_eq_true (List.mem_filter.1 (mem_takers_of_select h)).2

theorem mem_of_select (h : select ms args = .exact m ∨ select ms args = .converted m) : m ∈ ms :=
  (List.mem_filter.1 (List.mem_filter.1 (mem_takers_of_select h)).1).1

theorem eq_exact_iff : select ms args = .exact m ↔ ∃ before after, ofArity args ms = before ++ m :: after ∧
    Fits m.params args ∧ ∀ x ∈ before, ¬ Fits x.params args := by
  have hfirst : (ofArity args ms).find? (fun m => fits m.params args) = some m ↔
      ∃ before after, ofArity args ms = before ++ m :: after ∧ Fits m.params args ∧
        ∀ x ∈ before, ¬ Fits x.params args := by
    rw [List.find?_eq_some_iff_append, fits_iff]
    simp only [Bool.not_eq_true', Bool.eq_false_iff, ne_eq, fits_iff]
    constructor
    · rintro ⟨hfits, before, after, heq, hbefore⟩
      exact ⟨before, after, heq, hfits, hbefore⟩
    · rintro ⟨before, after, heq, hfits, hbefore⟩
      exact ⟨hfits, before, after, heq, hbefore⟩
  rw [← hfirst]
  obtain ⟨m', hfind, hselect⟩ | ⟨hnone, hchosen⟩ := select_cases ms args
  · rw [hfind, hselect, exact.injEq, Option.some.injEq]
  · refine iff_of_false hchosen.ne_exact fun hfind => ?_
    obtain ⟨hm, hfits⟩ := fits_of_find? hfind
    exact hnone m hm hfits

theorem leaders_eq_nil_iff : leaders args ms = [] ↔ takers args ms = [] := by
  unfold leaders
  rw [List.filter_eq_nil_iff]
  simp only [decide_eq_true_eq]
  constructor
  · intro h
    by_contra hne
    obtain ⟨x, hx, hleads, -⟩ := exists_top hne args
    exact h x hx hleads
  · intro h x hx
    rw [h] at hx
    cases hx

theorem leaders_eq_singleton_iff : leaders args ms = [m] ↔ ∃ before after, takers args ms = before ++ m :: after ∧
    ∀ x ∈ before ++ after, exactCount x.params args < exactCount m.params args := by
  unfold leaders
  rw [List.filter_eq_cons_iff]
  simp only [decide_eq_true_eq, List.filter_eq_nil_iff]
  constructor
  · rintro ⟨before, after, heq, hbefore, hleads, hafter⟩
    refine ⟨before, after, heq, fun x hx => ?_⟩
    have hx' : ¬ Leads args (takers args ms) x := (List.mem_append.1 hx).elim (hbefore x) (hafter x)
    refine Nat.lt_of_not_le fun hle => hx' fun y hy => ?_
    exact Nat.le_trans (hleads y hy) hle
  · rintro ⟨before, after, heq, hless⟩
    have hm : m ∈ takers args ms := heq ▸ List.mem_append_right _ List.mem_cons_self
    have hleads : Leads args (takers args ms) m := by
      intro x hx
      rw [heq, List.mem_append, List.mem_cons] at hx
      obtain hx | rfl | hx := hx
      · exact Nat.le_of_lt (hless x (List.mem_append_left _ hx))
      · exact Nat.le_refl _
      · exact Nat.le_of_lt (hless x (List.mem_append_right _ hx))
    refine ⟨before, after, heq, fun x hx hx' => ?_, hleads, fun x hx hx' => ?_⟩
    · exact absurd (hx' m hm) (Nat.not_le.2 (hless x (List.mem_append_left _ hx)))
    · exact absurd (hx' m hm) (Nat.not_le.2 (hless x (List.mem_append_right _ hx)))

theorem leaders_perm (hperm : ms.Perm ms') (args : List Kind) : (leaders args ms).Perm (leaders args ms') := by
  have htakers : (takers args ms).Perm (takers args ms') := (hperm.filter _).filter _
  have hleads (m : Method) : Leads args (takers args ms) m ↔ Leads args (takers args ms') m :=
    ⟨fun h x hx => h x (htakers.mem_iff.2 hx), fun h x hx => h x (htakers.mem_iff.1 hx)⟩
  unfold leaders
  simp only [hleads]
  exact htakers.filter _

theorem select_perm (hperm : ms.Perm ms') (hapart : ms.Pairwise Apart) (args : List Kind) :
    (select ms args).Alike (select ms' args) := by
  have harity : (ofArity args ms).Perm (ofArity args ms') := hperm.filter _
  obtain ⟨m, hfind, hselect⟩ | ⟨hnone, hchosen⟩ := select_cases ms args
  · obtain ⟨hm, hfits⟩ := fits_of_find? hfind
    obtain ⟨m', hfind', hselect'⟩ | ⟨hnone', -⟩ := select_cases ms' args
    · -- both fit the arguments, so they have the same parameters and are one method
      obtain ⟨hm', hfits'⟩ := fits_of_find? hfind'
      obtain rfl : m = m' := by
        by_contra hne
        exact hapart.forall (List.mem_filter.1 hm).1 (List.mem_filter.1 (harity.mem_iff.2 hm')).1 hne
          (hfits.same hfits')
      rw [hselect, hselect']
      exact .exact m
    · exact absurd hfits (hnone' m (harity.mem_iff.1 hm))
  · obtain ⟨m', hfind', -⟩ | ⟨-, hchosen'⟩ := select_cases ms' args
    · obtain ⟨hm', hfits'⟩ := fits_of_find? hfind'
      exact absurd hfits' (hnone m' (harity.mem_iff.2 hm'))
    · exact hchosen.alike hchosen' (leaders_perm hperm args)

/-- A choice is what it is meant to be: the first method that fits, or else, of the methods that the arguments can be
passed to, the one with the most exact parameters; where several have as many, all of these in their order. Methods with
different parameters can be given in any order. -/
theorem select_meets_specification (ms : List Method) (args : List Kind) :
    (∀ m, select ms args = .exact m ↔ ∃ before after, ofArity args ms = before ++ m :: after ∧
      Fits m.params args ∧ ∀ x ∈ before, ¬ Fits x.params args) ∧
    ((∀ x ∈ ofArity args ms, ¬ Fits x.params args) →
      (select ms args = .none ↔ takers args ms = []) ∧
      (∀ m, select ms args = .converted m ↔ ∃ before after, takers args ms = before ++ m :: after ∧
        ∀ x ∈ before ++ after, exactCount x.params args < exactCount m.params args) ∧
      ∀ l, select ms args = .ambiguous l ↔ l = leaders args ms ∧ 1 < l.length) ∧
    ∀ ms', ms.Perm ms' → ms.Pairwise Apart → (select ms args).Alike (select ms' args) := by
  refine ⟨fun m => eq_exact_iff, fun hnone => ?_, fun ms' hperm hapart => select_perm hperm hapart args⟩
  obtain ⟨m, hfind, -⟩ | ⟨-, hchosen⟩ := select_cases ms args
  · obtain ⟨hm, hfits⟩ := fits_of_find? hfind
    exact absurd hfits (hnone m hm)
  · refine ⟨hchosen.eq_none_iff.trans leaders_eq_nil_iff, fun m => ?_, fun l => hchosen.eq_ambiguous_iff⟩
    exact hchosen.eq_converted_iff.trans leaders_eq_singleton_iff

/-- Two methods have no exact parameter, so neither is better, in whatever order they are given. -/
theorem select_meets_specification_tie :
    let mix (params : List Kind) : Method := ⟨"mix", params, .float .f64, false, fun _ _ => pure .null⟩
    let ms := [mix [.text, .text], mix [.int .i64, .float .f64], mix [.int .i32], mix [.float .f64, .int .i64]]
    let args : List Kind := [.int .i32, .int .i32]
    (∀ x ∈ ofArity args ms, ¬ Fits x.params args) ∧ ms.Pairwise Apart ∧
      select ms args = .ambiguous [mix [.int .i64, .float .f64], mix [.float .f64, .int .i64]] ∧
      (select ms args).Alike (select ms.reverse args) := by
  intro mix ms args
  have hnone : ∀ x ∈ ofArity args ms, ¬ Fits x.params args := by decide
  have hapart : ms.Pairwise Apart := by decide
  obtain ⟨-, hrest, hperm⟩ := select_meets_specification ms args
  refine ⟨hnone, hapart, ((hrest hnone).2.2 _).2 ⟨rfl, by decide⟩, ?_⟩
  exact hperm _ (List.reverse_perm ms).symm hapart

end Selection

end Stencil
