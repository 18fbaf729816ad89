import Stencil.Proofs.Code.Relocation
import Stencil.Proofs.Table
import Stencil.Scope
set_option autoImplicit false

namespace Stencil

namespace Table

variable {α β : Type} (f : α → β) (t : Table α)

theorem map_set (name : String) (a : α) : (t.set name a).map f = (t.map f).set name (f a) := by
  unfold set map
  congr 1
  induction t.entries with
  | nil => rfl
  | cons e es ih =>
    rw [setIn, List.map_cons, setIn]
    split
    · rfl
    · rw [List.map_cons, ih]

theorem map_erase (name : String) : (t.erase name).map f = (t.map f).erase name := by
  unfold erase map
  rw [List.filter_map]
  rfl

end Table

variable (ρ : Nat → Nat)

def Fragment.relocate (f : Fragment) : Fragment :=
  ⟨f.name, f.params.map ρ, ρ f.snapshot, Step.relocateAll ρ f.compute, Step.relocateAll ρ f.emit⟩

def Binding.relocate : Binding → Binding
  | .slot n kind origin => .slot (ρ n) kind origin
  | .variable frame name kind => .variable frame name kind
  | .fragment f => .fragment (f.relocate ρ)
  | .hidden => .hidden

def Frame.relocate (f : Frame) : Frame := ⟨f.context, f.binder, f.bindings.map (Binding.relocate ρ)⟩

/-- The scope with every slot `n` at `ρ n`, and with as many slots given out as come before where the next one
goes. -/
def Scope.relocate (s : Scope) : Scope := ⟨s.inner.map (Frame.relocate ρ), s.root.relocate ρ, ρ s.slots⟩

variable {ρ}

theorem Binding.isLet_relocate (b : Binding) : (b.relocate ρ).isLet = b.isLet := by
  cases b with
  | slot n kind origin => cases origin <;> rfl
  | _ => rfl

namespace Frame

theorem find?_relocate (f : Frame) (cs : Bool) (name : String) :
    (f.relocate ρ).find? cs name = (f.find? cs name).map (Binding.relocate ρ) :=
  f.bindings.lookup_map _ cs name

theorem meaning?_relocate (f : Frame) (h : Host) (w : World) (cs : Bool) (name : String) (i : Nat) :
    Scope.meaning? h w cs name i (f.relocate ρ) = (Scope.meaning? h w cs name i f).map (Binding.relocate ρ) := by
  unfold Scope.meaning?
  rw [find?_relocate]
  cases f.find? cs name with
  | some b => rfl
  | none =>
    simp only [Option.map_none, relocate]
    rw [apply_ite (Option.map (Binding.relocate ρ)), Option.map_map]
    rfl

end Frame

namespace Scope

variable (s : Scope)

theorem frames_relocate : (s.relocate ρ).frames = s.frames.map (Frame.relocate ρ) := by simp [frames, relocate]

theorem depth_relocate : (s.relocate ρ).depth = s.depth := by simp [depth, relocate]

theorem current_relocate : (s.relocate ρ).current = s.current.relocate ρ := by
  unfold current relocate
  cases s.inner <;> rfl

theorem context?_relocate (n : Nat) : (s.relocate ρ).context? n = s.context? n := by
  unfold context?
  rw [frames_relocate, List.getElem?_map, Option.map_map]
  rfl

theorem frame?_relocate (i : Nat) : (s.relocate ρ).frame? i = (s.frame? i).map (Frame.relocate ρ) := by
  unfold frame?
  rw [frames_relocate, ← List.map_reverse, List.getElem?_map]

theorem binder?_relocate (i : Nat) : (s.relocate ρ).binder? i = s.binder? i := by
  unfold binder?
  rw [frame?_relocate, Option.map_map]
  rfl

theorem lookup_relocate (h : Host) (w : World) (cs : Bool) (name : String) :
    (s.relocate ρ).lookup h w cs name = (s.lookup h w cs name).map (Prod.map id (Binding.relocate ρ)) := by
  unfold lookup
  rw [frames_relocate]
  induction s.frames with
  | nil => rfl
  | cons f fs ih =>
    rw [List.map_cons, lookupIn, lookupIn, List.length_map, Frame.meaning?_relocate, ih]
    cases meaning? h w cs name fs.length f <;> rfl

theorem findFrame?_relocate {p : Frame → Bool} (hp : ∀ f : Frame, p (f.relocate ρ) = p f) (fs : List Frame) :
    findFrame? p (fs.map (Frame.relocate ρ)) = findFrame? p fs := by
  induction fs with
  | nil => rfl
  | cons f fs ih => rw [List.map_cons, findFrame?, findFrame?, hp, ih, List.length_map]

theorem letOwner?_relocate (cs : Bool) (name : String) : (s.relocate ρ).letOwner? cs name = s.letOwner? cs name := by
  unfold letOwner?
  rw [frames_relocate, findFrame?_relocate]
  intro f
  rw [Frame.find?_relocate]
  cases f.find? cs name with
  | none => rfl
  | some b => exact b.isLet_relocate

theorem declarationFrame_relocate : (s.relocate ρ).declarationFrame = s.declarationFrame := by
  unfold declarationFrame
  rw [frames_relocate, findFrame?_relocate]
  exact fun _ => rfl

theorem push_relocate (context : Kind) (binder : BinderKind) :
    (s.relocate ρ).push context binder = (s.push context binder).relocate ρ :=
  rfl

theorem pop_relocate : (s.relocate ρ).pop = s.pop.relocate ρ := by simp [pop, relocate]

theorem modifyFrame_relocate {g g' : Frame → Frame} (hg : ∀ f : Frame, g' (f.relocate ρ) = (g f).relocate ρ)
    (i : Nat) : (s.relocate ρ).modifyFrame i g' = (s.modifyFrame i g).relocate ρ := by
  have hinner (fs : List Frame) :
      modifyInner i g' (fs.map (Frame.relocate ρ)) = (modifyInner i g fs).map (Frame.relocate ρ) := by
    induction fs with
    | nil => rfl
    | cons f fs ih =>
      rw [List.map_cons, modifyInner, modifyInner, List.length_map, hg, ih]
      split <;> rfl
  unfold modifyFrame relocate
  split
  · simp only [hg]
  · simp only [hinner]

theorem declare_relocate (i : Nat) (name : String) (b : Binding) :
    (s.relocate ρ).declare i name (b.relocate ρ) = (s.declare i name b).relocate ρ :=
  s.modifyFrame_relocate (fun f => by simp only [Frame.relocate, Table.map_set]) i

theorem remove_relocate (i : Nat) (cs : Bool) (name : String) :
    (s.relocate ρ).remove i cs name = (s.remove i cs name).relocate ρ := by
  have hbound : (s.relocate ρ).boundAs? i cs name =
      (s.boundAs? i cs name).map fun e => (e.1, e.2.relocate ρ) := by
    unfold boundAs?
    rw [frame?_relocate]
    cases s.frame? i with
    | none => rfl
    | some f => exact f.bindings.entry?_map _ cs name
  unfold remove
  rw [hbound]
  cases s.boundAs? i cs name with
  | none => rfl
  | some e => exact s.modifyFrame_relocate (fun f => by simp only [Frame.relocate, Table.map_erase]) i

end Scope

end Stencil
