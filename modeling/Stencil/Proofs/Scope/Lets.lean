import Mathlib.Data.List.Pairwise
import Stencil.Proofs.Scope.Frames
set_option autoImplicit false

namespace Stencil

variable {cs : Bool}

namespace Frame

/-- One frame may stand inside another: it asks no variables of a context, and none of its names counts as one
that the other binds by a let. -/
structure Inside (cs : Bool) (f g : Frame) : Prop where
  static : f.binder ≠ .dynamic
  apart : ∀ e ∈ f.bindings.entries, ∀ l ∈ g.bindings.entries, l.2.isLet = true → sameName cs l.1 e.1 = false

/-- Frames of a let hold its names, no two of which count as the same, and other frames hold none. -/
structure Sorted (cs : Bool) (f : Frame) : Prop where
  lets : f.binder = .lets → ∀ e ∈ f.bindings.entries, e.2.isLet = true
  distinct : f.binder = .lets → f.bindings.names.Pairwise fun a b => sameName cs a b = false
  others : f.binder ≠ .lets → ∀ e ∈ f.bindings.entries, e.2.isLet = false

variable {f f' : Frame}

theorem binder_ne_lets (h : f.takesDefinitions = true) : f.binder ≠ .lets := by
  intro hbinder
  unfold takesDefinitions at h
  rw [hbinder] at h
  cases h

theorem Sorted.binder_of_let (h : f.Sorted cs) {e : String × Binding} (he : e ∈ f.bindings.entries)
    (hlet : e.2.isLet = true) : f.binder = .lets := by
  by_contra hbinder
  have hother := h.others hbinder e he
  rw [hlet] at hother
  cases hother

theorem sorted_of_empty (context : Kind) (binder : BinderKind) : (open_ context binder).Sorted cs :=
  ⟨fun _ _ he => absurd he List.not_mem_nil, fun _ => .nil, fun _ _ he => absurd he List.not_mem_nil⟩

theorem Sorted.find?_let (h : f.Sorted cs) {e : String × Binding} (he : e ∈ f.bindings.entries)
    (hlet : e.2.isLet = true) {name : String} (hname : sameName cs e.1 name = true) :
    f.find? cs name = some e.2 := by
  have hbinder := h.binder_of_let he hlet
  rcases f.bindings.lookup_cases cs name with ⟨e', he', hname', hfound⟩ | ⟨hnone, -⟩
  · -- Two names of one let that count as the same are one.
    have hsame : sameName cs e'.1 e.1 = true := sameName_trans hname' (sameName_symm hname)
    have hdistinct := List.pairwise_map.1 (h.distinct hbinder)
    have hsymm : Std.Symm fun a b : String × Binding => sameName cs a.1 b.1 = false := by
      refine ⟨fun a b hab => ?_⟩
      by_contra hba
      rw [sameName_symm (eq_true_of_ne_false hba)] at hab
      cases hab
    have heq : e' = e := by
      by_contra hne
      rw [hdistinct.forall he' he hne] at hsame
      cases hsame
    rw [heq] at hfound
    exact hfound
  · rw [hnone e he] at hname
    cases hname

end Frame

namespace Scope

variable {s t checked : Scope} {f f' : Frame} {before after : List Frame} {name : String}

structure Guarded (cs : Bool) (s : Scope) : Prop where
  stacked : s.frames.Pairwise (Frame.Inside cs)
  sorted : ∀ f ∈ s.frames, f.Sorted cs
  root : s.root.takesDefinitions = true

def Free (cs : Bool) (s : Scope) (name : String) : Prop :=
  ∀ g ∈ s.frames, ∀ l ∈ g.bindings.entries, l.2.isLet = true → sameName cs l.1 name = false

theorem guarded_init (h : Host) (w : World) (context : Kind) : (Scope.init h w context).Guarded cs where
  stacked := List.pairwise_singleton _ _
  sorted := List.forall_mem_singleton.2 (Frame.sorted_of_empty _ _)
  root := by
    unfold init Frame.open_ Frame.takesDefinitions
    dsimp only
    cases h.isDynamic w context <;> rfl

theorem lookupIn_append (h : Host) (w : World) (hbefore : ∀ g ∈ before, ∀ i, meaning? h w cs name i g = none) :
    lookupIn h w cs name (before ++ after) = lookupIn h w cs name after := by
  induction before with
  | nil => rfl
  | cons g before ih =>
    obtain ⟨hg, hbefore⟩ := List.forall_mem_cons.1 hbefore
    rw [List.cons_append, lookupIn, hg]
    exact ih hbefore

theorem findFrame?_eq_none {p : Frame → Bool} {fs : List Frame} (h : findFrame? p fs = none) :
    ∀ f ∈ fs, p f = false := by
  induction fs with
  | nil => simp
  | cons f fs ih =>
    rw [findFrame?] at h
    split at h
    · cases h
    · next hf => exact List.forall_mem_cons.2 ⟨by simpa using hf, ih h⟩

theorem exists_of_findFrame? {p : Frame → Bool} {fs : List Frame} {i : Nat} (h : findFrame? p fs = some i) :
    ∃ before f after, fs = before ++ f :: after ∧ after.length = i ∧ p f = true := by
  induction fs with
  | nil => cases h
  | cons f fs ih =>
    rw [findFrame?] at h
    split at h
    · next hf =>
      cases h
      exact ⟨[], f, fs, rfl, rfl, hf⟩
    · obtain ⟨before, g, after, rfl, hafter, hg⟩ := ih h
      exact ⟨f :: before, g, after, rfl, hafter, hg⟩

theorem mem_frames_of_frame? {i : Nat} (h : s.frame? i = some f) : f ∈ s.frames :=
  List.mem_reverse.1 (List.mem_of_getElem? h)

namespace Guarded

theorem lookup_let (h : s.Guarded cs) (hs : s.frames = before ++ f :: after) {e : String × Binding}
    (he : e ∈ f.bindings.entries) (hlet : e.2.isLet = true) (hname : sameName cs e.1 name = true) (host : Host)
    (w : World) : s.lookup host w cs name = some (after.length, e.2) := by
  have hstacked := h.stacked
  have hsorted := h.sorted
  rw [hs] at hstacked hsorted
  have hinside : ∀ g ∈ before, g.Inside cs f := fun g hg =>
    (List.pairwise_append.1 hstacked).2.2 g hg f List.mem_cons_self
  have hbefore : ∀ g ∈ before, ∀ i, meaning? host w cs name i g = none := by
    intro g hg i
    have hfind : g.find? cs name = none := by
      rcases g.bindings.lookup_cases cs name with ⟨e', he', hname', -⟩ | ⟨-, hnone⟩
      · have hsame := sameName_trans hname (sameName_symm hname')
        rw [(hinside g hg).apart e' he' e he hlet] at hsame
        cases hsame
      · exact hnone
    unfold meaning?
    rw [hfind]
    exact if_neg (hinside g hg).static
  have hfind := (hsorted f (List.mem_append_right _ List.mem_cons_self)).find?_let he hlet hname
  unfold lookup
  rw [hs, lookupIn_append host w hbefore, lookupIn, meaning?, hfind]

theorem declaration_split (h : s.Guarded cs) :
    ∃ before f after, s.frames = before ++ f :: after ∧ after.length = s.declarationFrame ∧
      f.takesDefinitions = true := by
  unfold declarationFrame
  cases hfind : findFrame? Frame.takesDefinitions s.frames with
  | some i => exact exists_of_findFrame? hfind
  | none =>
    have hroot := findFrame?_eq_none hfind s.root (List.mem_append_right _ List.mem_cons_self)
    rw [h.root] at hroot
    cases hroot

theorem free_of_checked (h : s.Guarded cs) (hname : checked.letOwner? cs name = none) (hkept : checked.Kept s) :
    s.Free cs name := by
  intro g hg l hl hlet
  by_contra hsame
  have hsame := eq_true_of_ne_false hsame
  have hsorted := h.sorted g hg
  obtain ⟨i, hi⟩ := List.mem_iff_getElem?.1 (List.mem_reverse.2 hg)
  by_cases hdeclaration : i = checked.declarationFrame
  · obtain ⟨before, f, after, hs, hafter, hf⟩ := h.declaration_split
    have hfg : some f = some g := by
      rw [← frame?_of_split hs, hafter, hkept.declarationFrame, ← hdeclaration]
      exact hi
    cases hfg
    exact Frame.binder_ne_lets hf (hsorted.binder_of_let hl hlet)
  · have hmem : g ∈ checked.frames := mem_frames_of_frame? ((hkept.others i hdeclaration).symm.trans hi)
    have hnot := findFrame?_eq_none hname g hmem
    rw [hsorted.find?_let hl hlet hsame] at hnot
    exact Bool.false_ne_true (hnot.symm.trans hlet)

theorem free_of_letOwner? (h : s.Guarded cs) (hname : s.letOwner? cs name = none) : s.Free cs name :=
  h.free_of_checked hname (.refl s)

theorem free_of_lookup (h : s.Guarded cs) {host : Host} {w : World} {owner : Nat} {b : Binding}
    (hlookup : s.lookup host w cs name = some (owner, b)) (hb : b.isLet = false) : s.Free cs name := by
  intro g hg l hl hlet
  by_contra hsame
  obtain ⟨before, after, hs⟩ := List.append_of_mem hg
  have hfound := h.lookup_let hs hl hlet (eq_true_of_ne_false hsame) host w
  rw [hlookup] at hfound
  cases hfound
  exact Bool.false_ne_true (hb.symm.trans hlet)

theorem enter (h : s.Guarded cs) (ht : t.frames = f :: s.frames)
    (hstatic : f.binder ≠ .dynamic) (hsorted : f.Sorted cs)
    (hfree : ∀ e ∈ f.bindings.entries, s.Free cs e.1) : t.Guarded cs where
  stacked := by
    rw [ht]
    exact List.pairwise_cons.2 ⟨fun g hg => ⟨hstatic, fun e he => hfree e he g hg⟩, h.stacked⟩
  sorted := by
    rw [ht]
    exact List.forall_mem_cons.2 ⟨hsorted, h.sorted⟩
  root := by
    rw [root_of_frames ht]
    exact h.root

theorem leave (h : s.Guarded cs) : s.pop.Guarded cs := by
  have hframes : s.pop.frames.Sublist s.frames := (List.drop_sublist 1 s.inner).append_right _
  exact ⟨h.stacked.sublist hframes, fun f hf => h.sorted f (hframes.subset hf), h.root⟩

/-- Where definitions land, entries may go, and entries with free names may come. -/
theorem change (h : s.Guarded cs) (hs : s.frames = before ++ f :: after) (hf : f.takesDefinitions = true)
    (ht : t.frames = before ++ f' :: after) (hshape : f'.shape = f.shape)
    (hentries : ∀ e ∈ f'.bindings.entries, e ∈ f.bindings.entries ∨ e.2.isLet = false ∧ s.Free cs e.1) :
    t.Guarded cs := by
  have hstacked := h.stacked
  have hsorted := h.sorted
  rw [hs] at hstacked hsorted
  have hbinder : f'.binder = f.binder := congrArg Prod.snd hshape
  have hnotLets : f'.binder ≠ .lets := hbinder ▸ Frame.binder_ne_lets hf
  have hnoLet : ∀ e ∈ f'.bindings.entries, e.2.isLet = false := by
    intro e he
    rcases hentries e he with he | ⟨hlet, -⟩
    · exact (hsorted f (List.mem_append_right _ List.mem_cons_self)).others (hbinder ▸ hnotLets) e he
    · exact hlet
  obtain ⟨hbefore, hrest, hacross⟩ := List.pairwise_append.1 hstacked
  obtain ⟨hfafter, hafter⟩ := List.pairwise_cons.1 hrest
  refine ⟨?_, ?_, ?_⟩
  · rw [ht]
    refine List.pairwise_append.2 ⟨hbefore, List.pairwise_cons.2 ⟨fun g hg => ?_, hafter⟩, fun g hg => ?_⟩
    · refine ⟨hbinder ▸ (hfafter g hg).static, fun e he => ?_⟩
      rcases hentries e he with he | ⟨-, hfree⟩
      · exact (hfafter g hg).apart e he
      · exact hfree g (hs ▸ List.mem_append_right _ (List.mem_cons_of_mem f hg))
    · refine List.forall_mem_cons.2
        ⟨⟨(hacross g hg f List.mem_cons_self).static, fun e _ l hl hlet => ?_⟩, fun x hx => ?_⟩
      · rw [hnoLet l hl] at hlet
        cases hlet
      · exact hacross g hg x (List.mem_cons_of_mem f hx)
  · rw [ht]
    obtain ⟨hsbefore, hsrest⟩ := List.forall_mem_append.1 hsorted
    have hf' : f'.Sorted cs := ⟨fun hl => absurd hl hnotLets, fun hl => absurd hl hnotLets, fun _ => hnoLet⟩
    exact List.forall_mem_append.2 ⟨hsbefore, List.forall_mem_cons.2 ⟨hf', (List.forall_mem_cons.1 hsrest).2⟩⟩
  · have hroots : t.shape = s.shape := by
      unfold shape
      rw [ht, hs, List.map_append, List.map_append, List.map_cons, List.map_cons, hshape]
    exact (Frame.takesDefinitions_of_shape (root_of_shape hroots)).trans h.root

theorem define (h : s.Guarded cs) (hfree : s.Free cs name) {b : Binding} (hb : b.isLet = false) :
    (s.declare s.declarationFrame name b).Guarded cs := by
  obtain ⟨before, f, after, hs, hafter, hf⟩ := h.declaration_split
  rw [← hafter]
  refine h.change hs hf (frames_modifyFrame hs _) rfl fun e he => ?_
  rcases Table.mem_set he with he | rfl
  · exact .inl he
  · exact .inr ⟨hb, hfree⟩

theorem frames_remove (hs : s.frames = before ++ f :: after) (cs : Bool) (name : String) :
    ∃ f', f'.shape = f.shape ∧ (∀ e ∈ f'.bindings.entries, e ∈ f.bindings.entries) ∧
      (s.remove after.length cs name).frames = before ++ f' :: after := by
  unfold remove
  split
  · next key _ _ =>
    refine ⟨{ f with bindings := f.bindings.erase key }, rfl, fun e he => ?_, frames_modifyFrame hs _⟩
    exact (List.mem_filter.1 he).1
  · exact ⟨f, rfl, fun _ he => he, hs⟩

theorem move (h : s.Guarded cs) {host : Host} {w : World} (hmove : Move host w cs s t) : t.Guarded cs := by
  cases hmove with
  | allocate => exact ⟨h.stacked, h.sorted, h.root⟩
  | enter _ context hbinder =>
    refine h.enter (s.frames_push context _) ?_ (Frame.sorted_of_empty context _) fun _ he => absurd he List.not_mem_nil
    rcases hbinder with rfl | rfl <;> rintro ⟨⟩
  | leave => exact h.leave
  | bindLets _ context hfree hdistinct =>
    obtain ⟨f, hshape, hframes, hentries, hnames⟩ := frames_bindSlots (s.frames_push context .lets) .letBinding _
    have hbinder : f.binder = .lets := congrArg Prod.snd hshape
    have hentry : ∀ e ∈ f.bindings.entries, e.2.isLet = true ∧ s.Free cs e.1 := by
      intro e he
      obtain ⟨x, hx, slot, rfl⟩ := (hentries e he).resolve_left List.not_mem_nil
      exact ⟨rfl, h.free_of_letOwner? (hfree x.1 (List.mem_map_of_mem hx))⟩
    refine h.enter hframes (by rw [hbinder]; decide) ?_ fun e he => (hentry e he).2
    exact ⟨fun _ e he => (hentry e he).1, fun _ => hnames cs hdistinct, fun hne => absurd hbinder hne⟩
  | bindParameters _ context hfree =>
    obtain ⟨f, hshape, hframes, hentries, -⟩ := frames_bindSlots (s.frames_push context .parameters) .parameter _
    have hbinder : f.binder = .parameters := congrArg Prod.snd hshape
    have hentry : ∀ e ∈ f.bindings.entries, e.2.isLet = false ∧ s.Free cs e.1 := by
      intro e he
      obtain ⟨x, hx, slot, rfl⟩ := (hentries e he).resolve_left List.not_mem_nil
      exact ⟨rfl, h.free_of_letOwner? (hfree x.1 (List.mem_map_of_mem hx))⟩
    refine h.enter hframes (by rw [hbinder]; decide) ?_ fun e he => (hentry e he).2
    have hother : f.binder ≠ .lets := by rw [hbinder]; decide
    exact ⟨fun hl => absurd hl hother, fun hl => absurd hl hother, fun _ e he => (hentry e he).1⟩
  | define hname hkept hb => exact h.define (h.free_of_checked hname hkept) hb
  | hide hlookup hb => exact h.define (h.free_of_lookup hlookup hb) rfl
  | remove _ name =>
    obtain ⟨before, f, after, hs, hafter, hf⟩ := h.declaration_split
    rw [← hafter]
    obtain ⟨f', hshape, hentries, hframes⟩ := frames_remove hs cs name
    exact h.change hs hf hframes hshape fun e he => .inl (hentries e he)
  | replace hlookup hb =>
    have hfree := h.free_of_lookup hlookup hb
    obtain ⟨before, f, after, hs, hafter, hf⟩ := h.declaration_split
    rw [← hafter]
    obtain ⟨f', hshape, hentries, hframes⟩ := frames_remove hs cs _
    refine h.change hs hf (frames_modifyFrame hframes _) hshape fun e he => ?_
    rcases Table.mem_set he with he | rfl
    · exact .inl (hentries e he)
    · exact .inr ⟨rfl, hfree⟩

end Guarded

end Scope

end Stencil
