import Mathlib.Data.List.Nodup
import Mathlib.Data.List.Perm.Basic
import Stencil.Host.Assembly
import Stencil.Proofs.Table
import Stencil.Run
import Stencil.Typing.Elaborate
/-!
The order of the implied namespaces. Which types a path reaches does not depend on it, but a type that is reached twice
is taken with the names that the first namespace needs to reach it. The order can be seen only there: two namespaces
reach one type, no namespace reaches another, and the two take different numbers of names. A path that repeats no name
never comes to that.
-/
set_option autoImplicit false

namespace Stencil

/-! ### Registered types -/

/-- Every type stands under its full name, and none stands there twice. -/
structure Table.Registered (types : Table NamedType) : Prop where
  named : ∀ e ∈ types.entries, e.1 = e.2.full
  once : types.names.Nodup

namespace Table.Registered

variable {types : Table NamedType} {cs : Bool} {a b : String} {t t' : NamedType}

theorem empty : (Table.empty : Table NamedType).Registered := ⟨nofun, List.nodup_nil⟩

theorem set (h : types.Registered) (t : NamedType) : (types.set t.full t).Registered := by
  refine ⟨fun e he => ?_, ?_⟩
  · obtain he | rfl := mem_set he
    · exact h.named e he
    · rfl
  · rw [names_set]
    split
    · exact h.once
    · next hfresh =>
      refine List.nodup_append.2 ⟨h.once, List.nodup_singleton _, ?_⟩
      intro x hx y hy
      obtain rfl := List.mem_singleton.1 hy
      exact fun heq => hfresh (heq ▸ hx)

theorem sameName_full (h : types.Registered) (ht : types.lookup cs a = some t) : sameName cs t.full a = true := by
  obtain ⟨e, he, hsame, hfound⟩ | ⟨-, hnone⟩ := lookup_cases types cs a
  · cases ht.symm.trans hfound
    exact h.named e he ▸ hsame
  · cases ht.symm.trans hnone

theorem eq_of_full (h : types.Registered) (ht : types.lookup cs a = some t) (ht' : types.lookup cs b = some t')
    (hfull : t.full = t'.full) : t = t' := by
  obtain ⟨n, hn⟩ := mem_of_lookup ht
  obtain ⟨n', hn'⟩ := mem_of_lookup ht'
  have hnames : n = n' := by
    rw [show n = t.full from h.named _ hn, show n' = t'.full from h.named _ hn', hfull]
  have hentry : ((n, t) : String × NamedType) = (n', t') := List.inj_on_of_nodup_map h.once hn hn' hnames
  exact (Prod.mk.inj hentry).2

end Table.Registered

/-! ### Outcomes -/

/-- What a computation gives, or the class of the fault that it fails with. -/
def outcome {α : Type} (x : Except Diagnostic α) : Except FaultClass α := x.mapError fun d => d.fault.classify

theorem outcome_bind {α β : Type} {x y : Except Diagnostic α} {f g : α → Except Diagnostic β}
    (hx : outcome x = outcome y) (hf : ∀ a, outcome (f a) = outcome (g a)) :
    outcome (x >>= f) = outcome (y >>= g) := by
  cases x with
  | error d =>
    cases y with
    | error d' => exact congrArg Except.error (Except.error.inj hx)
    | ok b => cases hx
  | ok a =>
    cases y with
    | error d' => cases hx
    | ok b =>
      obtain rfl : a = b := Except.ok.inj hx
      exact hf a

theorem Expr.path?_ne_nil (x : Expr) : x.path? ≠ some [] := by
  cases x with
  | member t n nameSpan span => simp [Expr.path?]
  | _ => nofun

namespace Setting

def through (s : Setting) (namespaces : List String) : Setting := { s with namespaces }

/-- The type that a path reaches through a namespace, and how many of its names lead there. -/
def reach? (s : Setting) (path : List Expr.Segment) (ns : String) : Option (NamedType × Nat) :=
  s.typeFront? (ns ++ ".") path path.length

/-- Namespaces through which the path reaches one type take equally many names for it. -/
def Coherent (s : Setting) (path : List Expr.Segment) : Prop :=
  ∀ ns ∈ s.namespaces, ∀ ns' ∈ s.namespaces, ∀ t n t' n', s.reach? path ns = some (t, n) →
    s.reach? path ns' = some (t', n') → t.full = t'.full → n = n'

/-- The path reaches different types through different namespaces. -/
def Divided (s : Setting) (path : List Expr.Segment) : Prop :=
  ∃ ns ∈ s.namespaces, ∃ ns' ∈ s.namespaces, ∃ t n t' n', s.reach? path ns = some (t, n) ∧
    s.reach? path ns' = some (t', n') ∧ t.full ≠ t'.full

variable {s : Setting} {path : List Expr.Segment} {namespaces : List String}

/-! ### Hits -/

/-- The hits that are kept of those found: the first of each type. -/
structure Gathered (found : List (Option (NamedType × Nat))) (hits : List (NamedType × Nat)) : Prop where
  first : hits.head? = found.findSome? id
  mem : ∀ h ∈ hits, some h ∈ found
  apart : hits.Pairwise fun h h' => h.1.full ≠ h'.1.full
  covers : ∀ h, some h ∈ found → ∃ h' ∈ hits, h'.1.full = h.1.full

namespace Gathered

variable {found : List (Option (NamedType × Nat))} {hits : List (NamedType × Nat)}

theorem step (h : Gathered found hits) (hit : Option (NamedType × Nat)) :
    Gathered (found ++ [hit]) (addHit hits hit) := by
  unfold addHit
  split
  · next t n =>
    have hlast : ∀ x, some x ∈ found ++ [some (t, n)] → some x ∈ found ∨ x = (t, n) := by simp
    split
    · next hany =>
      obtain ⟨y, hy, hfull⟩ := List.any_eq_true.1 hany
      refine ⟨?_, fun x hx => List.mem_append_left _ (h.mem x hx), h.apart, fun x hx => ?_⟩
      · -- a kept hit comes first already
        rw [List.findSome?_append, ← h.first]
        cases hits with
        | nil => cases hy
        | cons x hits => rfl
      · obtain hx | rfl := hlast x hx
        · exact h.covers x hx
        · exact ⟨y, hy, eq_of_beq hfull⟩
    · next hnone =>
      refine ⟨?_, fun x hx => ?_, ?_, fun x hx => ?_⟩
      · rw [List.findSome?_append, ← h.first, List.head?_append]
        rfl
      · obtain hx | hx := List.mem_append.1 hx
        · exact List.mem_append_left _ (h.mem x hx)
        · rw [List.mem_singleton.1 hx]
          exact List.mem_append_right _ List.mem_cons_self
      · refine List.pairwise_append.2 ⟨h.apart, List.pairwise_singleton _ _, fun x hx y hy hfull => hnone ?_⟩
        rw [List.mem_singleton.1 hy] at hfull
        exact List.any_eq_true.2 ⟨x, hx, beq_iff_eq.2 hfull⟩
      · obtain hx | rfl := hlast x hx
        · obtain ⟨y, hy, hfull⟩ := h.covers x hx
          exact ⟨y, List.mem_append_left _ hy, hfull⟩
        · exact ⟨_, List.mem_append_right _ List.mem_cons_self, rfl⟩
  · refine ⟨?_, fun x hx => List.mem_append_left _ (h.mem x hx), h.apart, fun x hx => h.covers x ?_⟩
    · rw [List.findSome?_append, ← h.first]
      cases hits <;> rfl
    · simpa using hx

theorem foldl (reach : String → Option (NamedType × Nat)) (namespaces : List String) (h : Gathered found hits) :
    Gathered (found ++ namespaces.map reach) (namespaces.foldl (fun hits ns => addHit hits (reach ns)) hits) := by
  induction namespaces generalizing found hits with
  | nil => simpa using h
  | cons ns namespaces ih =>
    rw [List.map_cons, List.append_cons]
    exact ih (h.step (reach ns))

end Gathered

/-- A path reaches nothing, or one type, taken as by the first namespace that reaches it, or several types. -/
theorem impliedType_cases (s : Setting) (path : List Expr.Segment) :
    ((∀ ns ∈ s.namespaces, s.reach? path ns = none) ∧ s.impliedType path = .ok none) ∨
      (∃ t n, s.namespaces.findSome? (s.reach? path) = some (t, n) ∧
        (∀ ns ∈ s.namespaces, ∀ t' n', s.reach? path ns = some (t', n') → t'.full = t.full) ∧
        s.impliedType path = .ok (some (.type t, n))) ∨
      (s.Divided path ∧ ∃ d, s.impliedType path = .error d ∧ d.fault.classify = .ambiguousNamespace) := by
  have hempty : Gathered [] [] := ⟨rfl, nofun, .nil, nofun⟩
  have h : Gathered (s.namespaces.map (s.reach? path))
      (s.namespaces.foldl (fun hits ns => addHit hits (s.typeFront? (ns ++ ".") path path.length)) []) :=
    hempty.foldl (s.reach? path) s.namespaces
  unfold impliedType
  revert h
  generalize s.namespaces.foldl (fun hits ns => addHit hits (s.typeFront? (ns ++ ".") path path.length)) [] = hits
  intro h
  have hcovers (ns : String) (hns : ns ∈ s.namespaces) (x : NamedType × Nat) (hx : s.reach? path ns = some x) :
      ∃ y ∈ hits, y.1.full = x.1.full := h.covers x (List.mem_map.2 ⟨ns, hns, hx⟩)
  match hits, h with
  | [], _ =>
    refine .inl ⟨fun ns hns => Option.eq_none_iff_forall_ne_some.2 fun x hx => ?_, rfl⟩
    obtain ⟨y, hy, -⟩ := hcovers ns hns x hx
    cases hy
  | [(t, n)], h =>
    refine .inr (.inl ⟨t, n, ?_, fun ns hns t' n' hx => ?_, rfl⟩)
    · simpa [List.findSome?_map] using h.first.symm
    · obtain ⟨y, hy, hfull⟩ := hcovers ns hns _ hx
      rw [List.mem_singleton.1 hy] at hfull
      exact hfull.symm
  | x :: y :: hits, h =>
    obtain ⟨ns, hns, hx⟩ := List.mem_map.1 (h.mem x List.mem_cons_self)
    obtain ⟨ns', hns', hy⟩ := List.mem_map.1 (h.mem y (List.mem_cons_of_mem _ List.mem_cons_self))
    have hne := List.rel_of_pairwise_cons h.apart List.mem_cons_self
    exact .inr (.inr ⟨⟨ns, hns, ns', hns', x.1, x.2, y.1, y.2, hx, hy, hne⟩, _, rfl, rfl⟩)

theorem exists_reach?_of_impliedType {r : Head × Nat} (h : s.impliedType path = .ok (some r)) :
    ∃ ns ∈ s.namespaces, ∃ t n, r = (.type t, n) ∧ s.reach? path ns = some (t, n) := by
  obtain ⟨-, heq⟩ | ⟨t, n, hfirst, -, heq⟩ | ⟨-, d, heq, -⟩ := s.impliedType_cases path <;> cases heq.symm.trans h
  obtain ⟨ns, hns, hreach⟩ := List.exists_of_findSome?_eq_some hfirst
  exact ⟨ns, hns, t, n, rfl, hreach⟩

/-! ### Orders -/

theorem typeFront?_through (ns : String) (path : List Expr.Segment) (n : Nat) :
    (s.through namespaces).typeFront? ns path n = s.typeFront? ns path n := by
  induction n with
  | zero => rfl
  | succ n ih => rw [typeFront?, typeFront?, ih]; rfl

theorem reach?_through (path : List Expr.Segment) : (s.through namespaces).reach? path = s.reach? path :=
  funext fun ns => typeFront?_through (ns ++ ".") path path.length

theorem divided_through (h : namespaces.Perm s.namespaces) :
    (s.through namespaces).Divided path ↔ s.Divided path := by
  have hmem (ns : String) : ns ∈ (s.through namespaces).namespaces ↔ ns ∈ s.namespaces := h.mem_iff
  unfold Divided
  simp only [reach?_through, hmem]

theorem typeFront?_eq_some {ns : String} {n m : Nat} {t : NamedType} (h : s.typeFront? ns path n = some (t, m)) :
    ∃ k < n, m = k + 1 ∧ s.types.lookup s.caseSensitive (ns ++ joinPath (path.take (k + 1))) = some t := by
  induction n with
  | zero => cases h
  | succ n ih =>
    rw [typeFront?] at h
    split at h
    · next hlookup =>
      cases h
      exact ⟨n, Nat.lt_succ_self n, rfl, hlookup⟩
    · obtain ⟨k, hk, rfl, hlookup⟩ := ih h
      exact ⟨k, Nat.lt_succ_of_lt hk, rfl, hlookup⟩

theorem outcome_impliedType_of_divided (hdivided : s.Divided path) :
    outcome (s.impliedType path) = .error .ambiguousNamespace := by
  obtain ⟨ns, hns, ns', hns', t, n, t', n', h, h', hne⟩ := hdivided
  obtain ⟨hnone, -⟩ | ⟨t, n, -, hall, -⟩ | ⟨-, d, heq, hclass⟩ := s.impliedType_cases path
  · cases (hnone ns hns).symm.trans h
  · exact absurd ((hall ns hns _ _ h).trans (hall ns' hns' _ _ h').symm) hne
  · rw [heq]
    exact congrArg Except.error hclass

theorem impliedType_of_undivided (hundivided : ¬ s.Divided path) :
    s.impliedType path = .ok ((s.namespaces.findSome? (s.reach? path)).map fun (t, n) => (.type t, n)) := by
  obtain ⟨hnone, heq⟩ | ⟨t, n, hfirst, -, heq⟩ | ⟨hdivided, -⟩ := s.impliedType_cases path
  · rw [heq, List.findSome?_eq_none_iff.2 hnone]
    rfl
  · rw [heq, hfirst]
    rfl
  · exact absurd hdivided hundivided

/-- Namespaces that agree on what they reach, and reach one type, have the same first in every order. -/
theorem findSome?_reach?_of_perm (hs : s.types.Registered) (hcoherent : s.Coherent path) (hundivided : ¬ s.Divided path)
    (hperm : namespaces.Perm s.namespaces) :
    namespaces.findSome? (s.reach? path) = s.namespaces.findSome? (s.reach? path) := by
  have hagree {ns ns' : String} {x x' : NamedType × Nat} (hns : ns ∈ s.namespaces) (hns' : ns' ∈ s.namespaces)
      (h : s.reach? path ns = some x) (h' : s.reach? path ns' = some x') : x = x' := by
    have hfull : x.1.full = x'.1.full := by
      by_contra hne
      exact hundivided ⟨ns, hns, ns', hns', _, _, _, _, h, h', hne⟩
    obtain ⟨k, -, -, hlookup⟩ := typeFront?_eq_some h
    obtain ⟨k', -, -, hlookup'⟩ := typeFront?_eq_some h'
    exact Prod.ext (hs.eq_of_full hlookup hlookup' hfull) (hcoherent ns hns ns' hns' _ _ _ _ h h' hfull)
  cases hfirst : s.namespaces.findSome? (s.reach? path) with
  | none =>
    refine List.findSome?_eq_none_iff.2 fun ns hns => ?_
    exact List.findSome?_eq_none_iff.1 hfirst ns (hperm.mem_iff.1 hns)
  | some x =>
    obtain ⟨ns, hns, h⟩ := List.exists_of_findSome?_eq_some hfirst
    cases hother : namespaces.findSome? (s.reach? path) with
    | none => cases (List.findSome?_eq_none_iff.1 hother ns (hperm.mem_iff.2 hns)).symm.trans h
    | some x' =>
      obtain ⟨ns', hns', h'⟩ := List.exists_of_findSome?_eq_some hother
      rw [hagree (hperm.mem_iff.1 hns') hns h' h]

/-- The order of the namespaces never decides what a path starts with, where those that reach one type agree on the
names it takes, or where two types are reached. Otherwise it does. -/
theorem outcome_impliedType_iff (hs : s.types.Registered) :
    (∀ namespaces : List String, namespaces.Perm s.namespaces →
        outcome ((s.through namespaces).impliedType path) = outcome (s.impliedType path)) ↔
      s.Coherent path ∨ s.Divided path := by
  have hthrough {namespaces : List String} (hperm : namespaces.Perm s.namespaces) (hundivided : ¬ s.Divided path) :
      (s.through namespaces).impliedType path =
        .ok ((namespaces.findSome? (s.reach? path)).map fun (t, n) => (.type t, n)) := by
    rw [impliedType_of_undivided ((divided_through hperm).not.2 hundivided), reach?_through]
    rfl
  constructor
  · intro hsame
    by_contra hneither
    obtain ⟨hincoherent, hundivided⟩ := not_or.1 hneither
    refine hincoherent fun ns hns ns' hns' t n t' n' h h' _ => ?_
    -- either namespace can be put first
    have hfirst {ns : String} {x : NamedType × Nat} (hns : ns ∈ s.namespaces) (h : s.reach? path ns = some x) :
        outcome (s.impliedType path) = .ok (some (.type x.1, x.2)) := by
      have hperm := (List.perm_cons_erase hns).symm
      rw [← hsame _ hperm, hthrough hperm hundivided, List.findSome?_cons, h]
      rfl
    cases (hfirst hns h).symm.trans (hfirst hns' h')
    rfl
  · intro hcondition namespaces hperm
    by_cases hdivided : s.Divided path
    · rw [outcome_impliedType_of_divided hdivided, outcome_impliedType_of_divided ((divided_through hperm).2 hdivided)]
    · rw [hthrough hperm hdivided, impliedType_of_undivided hdivided,
        findSome?_reach?_of_perm hs (hcondition.resolve_right hdivided) hdivided hperm]

/-! ### Repeated names -/

theorem eq_of_append_dot {pre pre' a b : List Char} (ha : '.' ∉ a) (hb : '.' ∉ b)
    (h : pre ++ '.' :: a = pre' ++ '.' :: b) : a = b := by
  obtain ⟨cs, -, h⟩ | ⟨cs, -, h⟩ := List.append_eq_append_iff.1 h <;> cases cs with
  | nil => exact (List.cons.inj h).2 ▸ rfl
  | cons c cs =>
    have htail := (List.cons.inj h).2
    simp_all

theorem eq_dot_of_toLower {c : Char} (h : c.toLower = '.') : c = '.' := by
  unfold Char.toLower at h
  split at h
  · next hc =>
    have hval : c.val + ('a'.val - 'A'.val) = '.'.val := congrArg Char.val h
    obtain ⟨hlow, hhigh⟩ := hc
    simp only [ge_iff_le, Char.reduceVal, UInt32.le_iff_toNat_le, UInt32.reduceToNat, UInt32.reduceSub]
      at hlow hhigh hval
    have hnat := congrArg UInt32.toNat hval
    simp only [UInt32.toNat_add, UInt32.reduceToNat] at hnat
    omega
  · exact h

theorem sameName_of_append_dot {cs : Bool} {full full' a b : String} {pre pre' : List Char}
    (hfull : full.toList = pre ++ '.' :: a.toList) (hfull' : full'.toList = pre' ++ '.' :: b.toList)
    (ha : '.' ∉ a.toList) (hb : '.' ∉ b.toList) (h : sameName cs full full' = true) : sameName cs a b = true := by
  have hlower {cs : List Char} (hcs : '.' ∉ cs) : '.' ∉ cs.map Char.toLower := fun hmem => by
    obtain ⟨c, hc, hdot⟩ := List.mem_map.1 hmem
    exact hcs (eq_dot_of_toLower hdot ▸ hc)
  rw [sameName_iff, hfull, hfull'] at h
  rw [sameName_iff]
  cases cs with
  | true => exact eq_of_append_dot ha hb h
  | false =>
    simp only [Bool.false_eq_true, if_false, List.map_append, List.map_cons] at h
    exact eq_of_append_dot (hlower ha) (hlower hb) h

theorem exists_toList_joinPath (ns : String) (path : List Expr.Segment) (m : Expr.Segment) :
    ∃ pre, (ns ++ "." ++ joinPath (path ++ [m])).toList = pre ++ '.' :: m.name.toList := by
  induction path generalizing ns with
  | nil => exact ⟨ns.toList, by simp [joinPath]⟩
  | cons x path ih =>
    obtain ⟨pre, hpre⟩ := ih (ns ++ "." ++ x.name)
    have hjoin : joinPath (x :: path ++ [m]) = x.name ++ "." ++ joinPath (path ++ [m]) := by
      cases path <;> simp [joinPath, String.intercalate_cons_cons]
    exact ⟨pre, by rw [hjoin, ← hpre]; simp only [String.append_assoc]⟩

/-- The names of a path are names proper, and no two of them count as one. -/
structure Distinct (cs : Bool) (path : List Expr.Segment) : Prop where
  dotless : ∀ m ∈ path, '.' ∉ m.name.toList
  apart : path.Pairwise fun m m' => sameName cs m.name m'.name = false

/-- A path that repeats no name reaches a type with the same names through every namespace. -/
theorem coherent_of_distinct (hs : s.types.Registered) (hpath : Distinct s.caseSensitive path) : s.Coherent path := by
  have hlast {ns : String} {t : NamedType} {n : Nat} (h : s.reach? path ns = some (t, n)) :
      ∃ k, ∃ hk : k < path.length, n = k + 1 ∧
        sameName s.caseSensitive t.full (ns ++ "." ++ joinPath (path.take k ++ [path[k]])) = true := by
    obtain ⟨k, hk, rfl, hlookup⟩ := typeFront?_eq_some h
    exact ⟨k, hk, rfl, List.take_append_getElem hk ▸ hs.sameName_full hlookup⟩
  intro ns _ ns' _ t n t' n' h h' hfull
  obtain ⟨k, hk, rfl, hsame⟩ := hlast h
  obtain ⟨k', hk', rfl, hsame'⟩ := hlast h'
  obtain ⟨pre, hpre⟩ := exists_toList_joinPath ns (path.take k) path[k]
  obtain ⟨pre', hpre'⟩ := exists_toList_joinPath ns' (path.take k') path[k']
  have hnames : sameName s.caseSensitive path[k].name path[k'].name = true :=
    sameName_of_append_dot hpre hpre' (hpath.dotless _ (List.getElem_mem hk)) (hpath.dotless _ (List.getElem_mem hk'))
      (sameName_trans (sameName_symm hsame) (hfull ▸ hsame'))
  have hapart := List.pairwise_iff_getElem.1 hpath.apart
  rcases Nat.lt_trichotomy k k' with hlt | rfl | hlt
  · cases (hapart k k' hk hk' hlt).symm.trans hnames
  · rfl
  · cases (hapart k' k hk' hk hlt).symm.trans (sameName_symm hnames)

/-! ### Paths -/

theorem resolveWith_through (r : NameRequest) (fs : List Resolver) :
    (s.through namespaces).resolveWith r fs = s.resolveWith r fs := by
  induction fs with
  | nil => rfl
  | cons f fs ih =>
    unfold resolveWith
    rw [ih]

theorem resolve_through (r : NameRequest) : (s.through namespaces).resolve r = s.resolve r :=
  resolveWith_through r s.resolvers

theorem tryName_through (name : String) (span : Span) :
    (s.through namespaces).tryName name span = s.tryName name span := by
  unfold tryName
  rw [resolve_through]
  rfl

theorem name_through (name : String) (span : Span) : (s.through namespaces).name name span = s.name name span := by
  unfold Setting.name
  rw [tryName_through]
  rfl

theorem members_through (t : Typed) (before ms : List Expr.Segment) :
    (s.through namespaces).members t before ms = s.members t before ms := by
  induction ms generalizing t before with
  | nil => rfl
  | cons m ms ih =>
    unfold members member
    simp only [ih, resolve_through]
    rfl

theorem outcome_head (h : outcome ((s.through namespaces).impliedType path) = outcome (s.impliedType path))
    (first : Expr.Segment) : outcome ((s.through namespaces).head first path) = outcome (s.head first path) := by
  have hname : ({ s.through namespaces with strict := true } : Setting).tryName first.name first.span =
      ({ s with strict := true } : Setting).tryName first.name first.span :=
    tryName_through (s := { s with strict := true }) first.name first.span
  unfold head
  dsimp only
  rw [typeFront?_through, hname, show (s.through namespaces).lookup first.name = s.lookup first.name from rfl]
  split
  · rfl
  · refine outcome_bind rfl fun t? => ?_
    cases t? with
    | none => exact h
    | some t =>
      dsimp only
      split
      · exact outcome_bind h fun _ => rfl
      · rfl

theorem outcome_path (h : outcome ((s.through namespaces).impliedType path) = outcome (s.impliedType path))
    (first : Expr.Segment) : outcome ((s.through namespaces).path first path) = outcome (s.path first path) := by
  unfold Setting.path
  refine outcome_bind (outcome_head h first) fun start => ?_
  simp only [name_through, members_through]
  rfl

/-- The order of the namespaces decides what a path is only where it decides what the path starts with. -/
theorem outcome_elaborate {x : Expr} (hx : x.path? = some path)
    (h : outcome ((s.through namespaces).impliedType path) = outcome (s.impliedType path)) :
    outcome ((s.through namespaces).elaborate x) = outcome (s.elaborate x) := by
  cases x with
  | name n span => rw [elaborate, elaborate, name_through]
  | member target n nameSpan span =>
    obtain ⟨front, hfront, rfl⟩ := Option.map_eq_some_iff.1 hx
    cases front with
    | nil => exact absurd hfront target.path?_ne_nil
    | cons first more =>
      rw [elaborate, elaborate, hfront]
      exact outcome_path h first
  | _ => cases hx

/-- A path is the same expression in every order of the namespaces, or fails with the same class of fault, provided that
those that reach one type agree on the names it takes or that two types are reached. Without that, the order decides
what the path starts with. A path that repeats no name meets the condition. -/
theorem paths_keep_across_orders (hs : s.types.Registered) {x : Expr} (hx : x.path? = some path) :
    (Distinct s.caseSensitive path → s.Coherent path) ∧
      (s.Coherent path ∨ s.Divided path → ∀ namespaces : List String, namespaces.Perm s.namespaces →
        outcome ((s.through namespaces).elaborate x) = outcome (s.elaborate x)) ∧
      (¬ (s.Coherent path ∨ s.Divided path) → ∃ namespaces : List String, namespaces.Perm s.namespaces ∧
        outcome ((s.through namespaces).impliedType path) ≠ outcome (s.impliedType path)) := by
  refine ⟨coherent_of_distinct hs, fun hcondition namespaces hperm => ?_, fun hneither => ?_⟩
  · exact outcome_elaborate hx ((outcome_impliedType_iff hs).2 hcondition namespaces hperm)
  · by_contra hnone
    refine hneither ((outcome_impliedType_iff hs).1 fun namespaces hperm => ?_)
    by_contra hne
    exact hnone ⟨namespaces, hperm, hne⟩

def nested (cs : Bool) (namespaces : List String) : Setting where
  host := ⟨#[{ HostType.named ⟨some "N.A", "A"⟩ with
    statics := ⟨[("length", ⟨"length", .int .i32, .int 7 .i32⟩), ("A", ⟨"A", .text, .text "abc"⟩)]⟩ }], #[], none⟩
  world := .empty
  scope := .init .empty .empty (.int .i32)
  types := Table.empty.set "N.A.A" (.host 0 ⟨some "N.A", "A"⟩)
  namespaces
  resolvers := []
  caseSensitive := cs
  strict := true

/-- Two spellings of a namespace, and a path without a repeated name. -/
theorem paths_keep_across_orders_spelling :
    let s := nested false ["N.A", "n.a"]
    let x : Expr := .member (.name "a" default) "LENGTH" default default
    s.types.Registered ∧ Distinct s.caseSensitive [⟨"a", default⟩, ⟨"LENGTH", default⟩] ∧
      outcome ((s.through ["n.a", "N.A"]).elaborate x) = .ok (s.const (.int 7 .i32)) := by
  intro s x
  have hs : s.types.Registered := Table.Registered.empty.set (.host 0 ⟨some "N.A", "A"⟩)
  have hdistinct : Distinct s.caseSensitive [⟨"a", default⟩, ⟨"LENGTH", default⟩] := ⟨by decide, by decide⟩
  obtain ⟨hcoherent, hkeeps, -⟩ := paths_keep_across_orders hs (x := x) rfl
  refine ⟨hs, hdistinct, ?_⟩
  rw [hkeeps (.inl (hcoherent hdistinct)) _ (.swap _ _ _)]
  rfl

/-- A path that repeats a name: the namespace that comes first decides between two values. -/
theorem order_decides_repeated_names :
    let value (namespaces : List String) :=
      let s := nested true namespaces
      (s.elaborateText "A.A.length" 0).map fun t => (t.evaluate s.host (.int 5 .i32) s.world).1
    ["N", "N.A"].Perm ["N.A", "N"] ∧ value ["N", "N.A"] = .ok (.ok (.int 7 .i32)) ∧
      value ["N.A", "N"] = .ok (.ok (.int 3 .i32)) := by
  have hwrap : IntKind.i32.wrap 3 = 3 := by decide
  have hlength : Value.wrapped 3 .i32 = .int 3 .i32 := congrArg (Value.int · .i32) hwrap
  refine ⟨.swap _ _ _, ?_, hlength ▸ ?_⟩
  all_goals with_unfolding_all rfl

end Setting

end Stencil
