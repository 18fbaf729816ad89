import Stencil.Proofs.Scope.Alike
import Stencil.Proofs.Table
/-!
What stays of a scope when definitions are made in it. Frames are opened and left in pairs, and names are bound
and removed in the frame in which definitions land, so that every other frame is as it was. Outside all blocks that is
the outermost frame, and inside a block it is one whose context they do not touch.
-/
set_option autoImplicit false

namespace Stencil

def Frame.shape (f : Frame) : Kind × BinderKind := (f.context, f.binder)

theorem Frame.takesDefinitions_of_shape {f f' : Frame} (h : f'.shape = f.shape) :
    f'.takesDefinitions = f.takesDefinitions := by
  unfold takesDefinitions
  rw [show f'.binder = f.binder from congrArg Prod.snd h]

namespace Scope

variable {s s' s'' t t' : Scope} {f : Frame} {fs before after : List Frame}

def shape (s : Scope) : List (Kind × BinderKind) := s.frames.map Frame.shape

theorem length_frames (s : Scope) : s.frames.length = s.depth := by
  simp [frames, depth]

theorem frames_push (s : Scope) (context : Kind) (binder : BinderKind) :
    (s.push context binder).frames = .open_ context binder :: s.frames :=
  rfl

theorem frames_pop (h : t.frames = f :: s.frames) : t.pop.frames = s.frames := by
  unfold frames at h
  cases hinner : t.inner with
  | nil =>
    rw [hinner, List.nil_append] at h
    have hlength := congrArg List.length h
    simp at hlength
  | cons g inner =>
    rw [hinner, List.cons_append] at h
    have htail := (List.cons.inj h).2
    unfold pop frames
    rw [hinner]
    exact htail

theorem root_of_frames (h : t.frames = f :: s.frames) : t.root = s.root := by
  have hsplit : t.inner ++ [t.root] = (f :: s.inner) ++ [s.root] := h
  exact (List.cons.inj (List.append_inj' hsplit rfl).2).1

theorem frame?_of_frames (h : s'.frames = s.frames) (i : Nat) : s'.frame? i = s.frame? i := by
  unfold frame?
  rw [h]

theorem frame?_of_cons (h : t.frames = f :: fs) {i : Nat} (hi : i < fs.length) : t.frame? i = fs.reverse[i]? := by
  unfold frame?
  rw [h, List.reverse_cons, List.getElem?_append_left (by simpa using hi)]

theorem exists_frame {i : Nat} (hi : i < s.depth) :
    ∃ before f after, s.frames = before ++ f :: after ∧ after.length = i := by
  have hlength := s.length_frames
  have hdrop : s.frames.length - 1 - i < s.frames.length := by omega
  refine ⟨s.frames.take (s.frames.length - 1 - i), s.frames.get ⟨_, hdrop⟩,
    s.frames.drop (s.frames.length - 1 - i + 1), ?_, ?_⟩
  · have hcut := List.take_append_drop (s.frames.length - 1 - i) s.frames
    rw [List.drop_eq_getElem_cons hdrop] at hcut
    exact hcut.symm
  · rw [List.length_drop]
    omega

theorem frame?_of_split (h : s.frames = before ++ f :: after) : s.frame? after.length = some f := by
  unfold frame?
  rw [h, List.reverse_append, List.reverse_cons, List.append_assoc,
    List.getElem?_append_right (by simp)]
  simp

theorem split_of_frame? {i : Nat} (h : s.frame? i = some f) :
    ∃ before after, s.frames = before ++ f :: after ∧ after.length = i := by
  have hi : i < s.depth := by
    obtain ⟨hlt, -⟩ := List.getElem?_eq_some_iff.1 h
    rwa [List.length_reverse, length_frames] at hlt
  obtain ⟨before, g, after, hs, hafter⟩ := exists_frame hi
  have hg := frame?_of_split hs
  rw [hafter, h] at hg
  cases hg
  exact ⟨before, after, hs, hafter⟩

theorem mem_of_frame?_gt (h : s.frames = before ++ f :: after) {g : Frame} {i : Nat} (hi : after.length < i)
    (hg : s.frame? i = some g) : g ∈ before := by
  unfold frame? at hg
  rw [h, List.reverse_append, List.reverse_cons, List.getElem?_append_right (by simpa using Nat.succ_le_of_lt hi)] at hg
  exact List.mem_reverse.1 (List.mem_of_getElem? hg)

theorem frame?_of_split_ne {g : Frame} (h : s.frames = before ++ f :: after) (h' : s'.frames = before ++ g :: after)
    {i : Nat} (hi : i ≠ after.length) : s'.frame? i = s.frame? i := by
  have hreverse (x : Frame) : (before ++ x :: after).reverse = after.reverse ++ x :: before.reverse := by simp
  unfold frame?
  rw [h, h', hreverse, hreverse]
  by_cases hlt : i < after.length
  · have hleft : i < after.reverse.length := by simpa using hlt
    rw [List.getElem?_append_left hleft, List.getElem?_append_left hleft]
  · have hright : after.reverse.length ≤ i := by simpa using hlt
    obtain ⟨k, hk⟩ : ∃ k, i - after.reverse.length = k + 1 :=
      ⟨i - after.length - 1, by rw [List.length_reverse]; omega⟩
    rw [List.getElem?_append_right hright, List.getElem?_append_right hright, hk, List.getElem?_cons_succ,
      List.getElem?_cons_succ]

theorem modifyInner_split {inner : List Frame} {root : Frame} (g : Frame → Frame) (hafter : after ≠ [])
    (h : inner ++ [root] = before ++ f :: after) :
    modifyInner after.length g inner ++ [root] = before ++ g f :: after := by
  induction before generalizing inner with
  | nil =>
    cases inner with
    | nil => exact absurd (List.cons.inj h).2.symm hafter
    | cons x xs =>
      obtain ⟨rfl, rfl⟩ := List.cons.inj h
      rw [modifyInner, if_pos (by simp)]
      rfl
  | cons b before ih =>
    cases inner with
    | nil =>
      have hlength := congrArg List.length h
      simp only [List.length_append, List.length_cons, List.length_nil] at hlength
      omega
    | cons x xs =>
      obtain ⟨rfl, hrest⟩ := List.cons.inj h
      have hxs : xs ++ [root] = before ++ f :: after := hrest
      have hlength := congrArg List.length hxs
      simp only [List.length_append, List.length_cons, List.length_nil] at hlength
      rw [modifyInner, if_neg (by omega), List.cons_append, ih hxs]
      rfl

theorem frames_modifyFrame (h : s.frames = before ++ f :: after) (g : Frame → Frame) :
    (s.modifyFrame after.length g).frames = before ++ g f :: after := by
  unfold modifyFrame
  cases hafter : after with
  | nil =>
    rw [hafter] at h
    obtain ⟨hinner, hroot⟩ := List.append_inj' h rfl
    rw [if_pos (by rfl), ← (List.cons.inj hroot).1, ← hinner]
    rfl
  | cons x xs =>
    rw [if_neg (by simp), ← hafter]
    exact modifyInner_split g (by simp [hafter]) h

theorem findFrame?_of_shape {fs fs' : List Frame} (h : fs'.map Frame.shape = fs.map Frame.shape) :
    findFrame? Frame.takesDefinitions fs' = findFrame? Frame.takesDefinitions fs := by
  induction fs generalizing fs' with
  | nil =>
    cases fs' with
    | nil => rfl
    | cons f' fs' => cases h
  | cons f fs ih =>
    cases fs' with
    | nil => cases h
    | cons f' fs' =>
      obtain ⟨hf, hfs⟩ := List.cons.inj h
      have hlength : fs'.length = fs.length := by simpa using congrArg List.length hfs
      rw [findFrame?, findFrame?, Frame.takesDefinitions_of_shape hf, ih hfs, hlength]

theorem declarationFrame_of_shape (h : s'.shape = s.shape) : s'.declarationFrame = s.declarationFrame :=
  congrArg (Option.getD · 0) (findFrame?_of_shape h)

theorem depth_of_shape (h : s'.shape = s.shape) : s'.depth = s.depth := by
  have hlength := congrArg List.length h
  simpa [shape, length_frames] using hlength

theorem root_of_shape (h : s'.shape = s.shape) : s'.root.shape = s.root.shape := by
  unfold shape frames at h
  rw [List.map_append, List.map_append] at h
  exact (List.cons.inj (List.append_inj' h rfl).2).1

theorem lt_of_findFrame? {p : Frame → Bool} {i : Nat} (h : findFrame? p fs = some i) : i < fs.length := by
  induction fs with
  | nil => cases h
  | cons f fs ih =>
    rw [findFrame?] at h
    split at h
    · cases h
      exact Nat.lt_succ_self _
    · exact Nat.lt_succ_of_lt (ih h)

theorem declarationFrame_lt (s : Scope) : s.declarationFrame < s.depth := by
  unfold declarationFrame
  cases h : findFrame? Frame.takesDefinitions s.frames with
  | none => exact Nat.succ_pos _
  | some i => exact s.length_frames ▸ lt_of_findFrame? h

theorem declarationFrame_of_taking (h : t.frames = f :: s.frames) (hf : f.takesDefinitions = true) :
    t.declarationFrame = s.depth := by
  unfold declarationFrame
  rw [h, findFrame?, if_pos hf]
  exact s.length_frames

theorem declarationFrame_of_passing (h : t.frames = f :: s.frames) (hf : f.takesDefinitions = false) :
    t.declarationFrame = s.declarationFrame := by
  unfold declarationFrame
  rw [h, findFrame?, if_neg (by rw [hf]; exact Bool.false_ne_true)]

/-- The frames are as they were, apart from the names bound where definitions land. -/
structure Kept (s s' : Scope) : Prop where
  shape : s'.shape = s.shape
  others : ∀ i, i ≠ s.declarationFrame → s'.frame? i = s.frame? i

theorem kept_of_frames (h : s'.frames = s.frames) : s.Kept s' where
  shape := congrArg (List.map Frame.shape) h
  others := fun i _ => frame?_of_frames h i

theorem kept_allocate (s : Scope) : s.Kept s.allocate.2 := kept_of_frames rfl

theorem kept_modifyFrame (s : Scope) {g : Frame → Frame} (hg : ∀ f, (g f).shape = f.shape) :
    s.Kept (s.modifyFrame s.declarationFrame g) := by
  obtain ⟨before, f, after, hs, hafter⟩ := exists_frame s.declarationFrame_lt
  rw [← hafter]
  have hmodified := frames_modifyFrame hs g
  constructor
  · unfold shape
    rw [hmodified, hs, List.map_append, List.map_append, List.map_cons, List.map_cons, hg]
  · intro i hi
    exact frame?_of_split_ne hs hmodified (hafter ▸ hi)

theorem kept_declare (s : Scope) (name : String) (b : Binding) : s.Kept (s.declare s.declarationFrame name b) :=
  s.kept_modifyFrame fun _ => rfl

theorem kept_remove (s : Scope) (cs : Bool) (name : String) : s.Kept (s.remove s.declarationFrame cs name) := by
  unfold remove
  split
  · exact s.kept_modifyFrame fun _ => rfl
  · exact kept_of_frames rfl

namespace Kept

theorem refl (s : Scope) : s.Kept s := kept_of_frames rfl

theorem declarationFrame (h : s.Kept s') : s'.declarationFrame = s.declarationFrame :=
  declarationFrame_of_shape h.shape

theorem depth (h : s.Kept s') : s'.depth = s.depth := depth_of_shape h.shape

theorem trans (h : s.Kept s') (h' : s'.Kept s'') : s.Kept s'' where
  shape := h'.shape.trans h.shape
  others := fun i hi => (h'.others i (h.declarationFrame ▸ hi)).trans (h.others i hi)

theorem below (h : t.Kept t') (ht : t.frames = f :: s.frames) :
    t'.pop.shape = s.shape ∧ ∀ i, i ≠ t.declarationFrame → t'.pop.frame? i = s.frame? i := by
  have hshape := h.shape
  have hothers := h.others
  unfold Scope.shape at hshape
  rw [ht, List.map_cons] at hshape
  obtain ⟨f', fs', ht', -, hfs'⟩ := List.map_eq_cons_iff.1 hshape
  have hlength : fs'.length = s.frames.length := by simpa using congrArg List.length hfs'
  have hne : fs' ≠ [] := by
    rintro rfl
    simp [length_frames, Scope.depth] at hlength
  -- What stays when the innermost frame is left is the rest of the list.
  have hpop : t'.pop.frames = fs' := by
    obtain ⟨fs'', root, hroot⟩ : ∃ fs'' root, fs' = fs'' ++ [root] :=
      ⟨fs'.dropLast, fs'.getLast hne, (List.dropLast_append_getLast hne).symm⟩
    have hscope : t'.frames = f' :: (⟨fs'', root, 0⟩ : Scope).frames := by rw [ht', hroot]; rfl
    exact (frames_pop hscope).trans hroot.symm
  refine ⟨by unfold Scope.shape; rw [hpop, hfs'], fun i hi => ?_⟩
  show t'.pop.frames.reverse[i]? = s.frames.reverse[i]?
  rw [hpop]
  by_cases hlt : i < s.frames.length
  · rw [← frame?_of_cons ht hlt, ← frame?_of_cons ht' (hlength ▸ hlt)]
    exact hothers i hi
  · rw [List.getElem?_eq_none (by simp; omega), List.getElem?_eq_none (by simp; omega)]

/-- Definitions made in a frame that takes none land where they land outside it. -/
theorem pop (h : t.Kept t') (ht : t.frames = f :: s.frames) (hf : f.takesDefinitions = false) : s.Kept t'.pop := by
  obtain ⟨hshape, hothers⟩ := h.below ht
  exact ⟨hshape, fun i hi => hothers i (declarationFrame_of_passing ht hf ▸ hi)⟩

theorem frames_pop (h : t.Kept t') (ht : t.frames = f :: s.frames) (hf : f.takesDefinitions = true) :
    t'.pop.frames = s.frames := by
  obtain ⟨hshape, hothers⟩ := h.below ht
  have hdepth := depth_of_shape hshape
  refine List.reverse_injective (List.ext_getElem? fun i => ?_)
  by_cases hi : i = t.declarationFrame
  · have houtside (u : Scope) (hu : u.depth = s.depth) : u.frames.reverse[s.depth]? = none :=
      List.getElem?_eq_none (by simp [length_frames, hu])
    rw [hi, declarationFrame_of_taking ht hf, houtside t'.pop hdepth, houtside s rfl]
  · exact hothers i hi

end Kept

def bindSlots (i : Nat) (origin : Origin) : List (String × Kind) → Scope → Scope
  | [], s => s
  | (name, kind) :: more, s => bindSlots i origin more (s.allocate.2.declare i name (.slot s.slots kind origin))

theorem frames_declare_top (h : t.frames = f :: s.frames) (name : String) (b : Binding) :
    (t.declare s.depth name b).frames = { f with bindings := f.bindings.set name b } :: s.frames := by
  rw [← s.length_frames]
  exact frames_modifyFrame (show t.frames = [] ++ f :: s.frames from h) _

theorem frames_bindSlots (h : t.frames = f :: s.frames) (origin : Origin) (names : List (String × Kind)) :
    ∃ f', f'.shape = f.shape ∧ (bindSlots s.depth origin names t).frames = f' :: s.frames ∧
      (∀ e ∈ f'.bindings.entries, e ∈ f.bindings.entries ∨
        ∃ x ∈ names, ∃ slot, e = (x.1, .slot slot x.2 origin)) ∧
      ∀ cs, (f.bindings.names ++ names.map Prod.fst).Pairwise (fun a b => sameName cs a b = false) →
        f'.bindings.names.Pairwise fun a b => sameName cs a b = false := by
  induction names generalizing t f with
  | nil => exact ⟨f, rfl, h, fun e he => .inl he, by simp⟩
  | cons x names ih =>
    have hdeclared := frames_declare_top (show t.allocate.2.frames = f :: s.frames from h) x.1
      (.slot t.slots x.2 origin)
    obtain ⟨f', hshape, hframes, hentries, hnames⟩ := ih hdeclared
    refine ⟨f', hshape, hframes, fun e he => ?_, fun cs hcs => hnames cs ?_⟩
    · rcases hentries e he with he | ⟨y, hy, slot, rfl⟩
      · rcases Table.mem_set he with he | rfl
        · exact .inl he
        · exact .inr ⟨x, List.mem_cons_self, t.slots, rfl⟩
      · exact .inr ⟨y, List.mem_cons_of_mem x hy, slot, rfl⟩
    · have hfresh : ∀ n ∈ f.bindings.names, n ≠ x.1 := by
        rintro n hn rfl
        have happart := (List.pairwise_append.1 hcs).2.2 x.1 hn x.1 List.mem_cons_self
        rw [sameName_refl] at happart
        cases happart
      dsimp only
      rw [Table.names_set_of_fresh hfresh, List.append_assoc]
      exact hcs

/-- What compiling does to a scope at a time. A name is bound only where no let around it binds one that counts
as the same: checked when it is bound, or before names that were bound in between where definitions land. -/
inductive Move (h : Host) (w : World) (cs : Bool) : Scope → Scope → Prop where
  | allocate (s : Scope) : Move h w cs s s.allocate.2
  | enter (s : Scope) (context : Kind) {binder : BinderKind} :
    binder = .readOnly ∨ binder = .declarations → Move h w cs s (s.push context binder)
  | leave (s : Scope) : Move h w cs s s.pop
  | bindLets (s : Scope) (context : Kind) {names : List (String × Kind)} :
    (∀ name ∈ names.map Prod.fst, s.letOwner? cs name = none) →
    (names.map Prod.fst).Pairwise (fun a b => sameName cs a b = false) →
    Move h w cs s (bindSlots s.depth .letBinding names (s.push context .lets))
  | bindParameters (s : Scope) (context : Kind) {names : List (String × Kind)} :
    (∀ name ∈ names.map Prod.fst, s.letOwner? cs name = none) →
    Move h w cs s (bindSlots s.depth .parameter names (s.push context .parameters))
  | define {checked s : Scope} {name : String} {b : Binding} :
    checked.letOwner? cs name = none → checked.Kept s → b.isLet = false →
    Move h w cs s (s.declare s.declarationFrame name b)
  | hide {s : Scope} {name : String} {owner : Nat} {b : Binding} :
    s.lookup h w cs name = some (owner, b) → b.isLet = false →
    Move h w cs s (s.declare s.declarationFrame name .hidden)
  | remove (s : Scope) (name : String) : Move h w cs s (s.remove s.declarationFrame cs name)
  | replace {s : Scope} {name : String} {owner : Nat} {b : Binding} :
    s.lookup h w cs name = some (owner, b) → b.isLet = false →
    Move h w cs s ((s.remove s.declarationFrame cs name).declare s.declarationFrame name .hidden)

end Scope

inductive Landing where
  | outermost
  | block
deriving DecidableEq, Repr

/-- Definitions land in the outermost frame, or in none that passes them on to variables. -/
def Landing.Holds : Landing → Scope → Prop
  | outermost, s => s.declarationFrame = 0
  | block, s => s.binder? s.declarationFrame ≠ some .dynamic

namespace Scope

variable {s s' : Scope}

theorem binder?_of_shape (h : s'.shape = s.shape) (i : Nat) : s'.binder? i = s.binder? i := by
  have hbinder (t : Scope) : t.binder? i = (t.shape.reverse[i]?).map Prod.snd := by
    simp [binder?, frame?, shape, ← List.map_reverse, Function.comp_def, Frame.shape]
  rw [hbinder, hbinder, h]

theorem shape_modifyFrame (s : Scope) (i : Nat) {g : Frame → Frame} (hg : ∀ f, (g f).shape = f.shape) :
    (s.modifyFrame i g).shape = s.shape := by
  have hinner (fs : List Frame) : (modifyInner i g fs).map Frame.shape = fs.map Frame.shape := by
    induction fs with
    | nil => rfl
    | cons f fs ih =>
      rw [modifyInner]
      split <;> simp [hg, ih]
  unfold modifyFrame shape frames
  split <;> simp [hg, hinner]

theorem shape_declare (s : Scope) (i : Nat) (name : String) (b : Binding) : (s.declare i name b).shape = s.shape :=
  s.shape_modifyFrame i fun _ => rfl

theorem shape_remove (s : Scope) (i : Nat) (cs : Bool) (name : String) : (s.remove i cs name).shape = s.shape := by
  unfold remove
  split
  · exact s.shape_modifyFrame i fun _ => rfl
  · rfl

theorem shape_pop {context : Kind} {binder : BinderKind} (h : s'.shape = (s.push context binder).shape) :
    s'.pop.shape = s.shape := by
  have hlength := congrArg List.length h
  obtain ⟨inner, root, slots⟩ := s'
  cases inner with
  | nil => simp [shape, frames, push] at hlength
  | cons f inner => exact (List.cons.inj h).2

end Scope

namespace Landing

variable {r : Landing} {s s' : Scope}

theorem Holds.of_shape (h : r.Holds s) (hs : s'.shape = s.shape) : r.Holds s' := by
  cases r with
  | outermost => exact (Scope.declarationFrame_of_shape hs).trans h
  | block =>
    dsimp only [Holds] at h ⊢
    rwa [Scope.declarationFrame_of_shape hs, Scope.binder?_of_shape hs]

theorem Holds.push (h : r.Holds s) (context : Kind) {binder : BinderKind}
    (hbinder : (Frame.open_ context binder).takesDefinitions = false) : r.Holds (s.push context binder) := by
  have hframe := Scope.declarationFrame_of_passing (s.frames_push context binder) hbinder
  cases r with
  | outermost => exact hframe.trans h
  | block =>
    have hlt : s.declarationFrame < s.frames.length := s.length_frames ▸ s.declarationFrame_lt
    dsimp only [Holds, Scope.binder?] at h ⊢
    rwa [hframe, Scope.frame?_of_cons (s.frames_push context binder) hlt]

theorem holds_block (s : Scope) (context : Kind) : block.Holds (s.push context .declarations) := by
  have hframes := s.frames_push context .declarations
  have hframe : (s.push context .declarations).declarationFrame = s.frames.length :=
    (Scope.declarationFrame_of_taking hframes rfl).trans s.length_frames.symm
  dsimp only [Holds, Scope.binder?]
  rw [hframe, Scope.frame?_of_split (show _ = [] ++ _ from hframes)]
  simp [Frame.open_]

theorem holds_init (h : Host) (w : World) (context : Kind) : outermost.Holds (.init h w context) := by
  dsimp only [Holds, Scope.init]
  cases h.isDynamic w context <;> rfl

end Landing

end Stencil
