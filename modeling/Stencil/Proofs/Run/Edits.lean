import Stencil.Proofs.Code.Alike
import Stencil.Proofs.Table
import Stencil.Run
set_option autoImplicit false

namespace Stencil

namespace World

variable {w : World} {ref : Nat}

theorem update_id (w : World) (ref : Nat) : w.update ref id = w := by
  unfold update
  congr 1
  apply Array.ext_getElem?
  intro i
  rw [Array.getElem?_modify]
  split
  · rw [Option.map_id]
    rfl
  · rfl

theorem update_update (w : World) (ref : Nat) (f g : Object → Object) :
    (w.update ref f).update ref g = w.update ref (g ∘ f) := by
  unfold update
  dsimp only
  congr 1
  apply Array.ext_getElem?
  intro i
  rw [Array.getElem?_modify, Array.getElem?_modify, Array.getElem?_modify]
  split
  · rw [Option.map_map]
  · rfl

theorem object_update_ne (w : World) (f : Object → Object) {i : Nat} (hi : i ≠ ref) :
    (w.update ref f).object i = w.object i := by
  unfold object update
  rw [Array.getD_eq_getD_getElem?, Array.getD_eq_getD_getElem?, Array.getElem?_modify, if_neg (Ne.symm hi)]

theorem object_update (f : Object → Object) (href : ref < w.objects.size) :
    (w.update ref f).object ref = f (w.object ref) := by
  unfold object update
  rw [Array.getD_eq_getD_getElem?, Array.getD_eq_getD_getElem?, Array.getElem?_modify, if_pos rfl,
    Array.getElem?_eq_getElem href]
  rfl

theorem size_update (w : World) (ref : Nat) (f : Object → Object) :
    (w.update ref f).objects.size = w.objects.size := Array.size_modify

theorem update_eq_put (w : World) (ref : Nat) (f : Object → Object) :
    w.update ref f = w.update ref fun _ => f (w.object ref) := by
  unfold update object
  congr 1
  apply Array.ext_getElem?
  intro i
  rw [Array.getElem?_modify, Array.getElem?_modify, Array.getD_eq_getD_getElem?]
  split
  · next hi =>
    subst hi
    cases w.objects[ref]? <;> rfl
  · rfl

theorem setVariable_record {es : Table Value} (h : w.object ref = .record es) (n : String) (v : Value) :
    w.setVariable ref n v = w.update ref fun _ => .record (es.set n v) := by
  unfold setVariable
  rw [update_eq_put, h]
  rfl

theorem unsetVariable_record {es : Table Value} (h : w.object ref = .record es) (n : String) :
    w.unsetVariable ref n = w.update ref fun _ => .record (es.erase n) := by
  unfold unsetVariable
  rw [update_eq_put, h]
  rfl

end World

inductive Edit where
  | set (name : String) (v : Value)
  | unset (name : String)

namespace Edit

def write : Edit → Write
  | set name _ => .set name
  | unset name => .unset name

def apply (ref : Nat) (w : World) : Edit → World
  | set name v => w.setVariable ref name v
  | unset name => w.unsetVariable ref name

def onEntries (t : Table Value) : Edit → Table Value
  | set name v => t.set name v
  | unset name => t.erase name

end Edit

/-- Changes a variable of the context in a frame, where that is an object. -/
def Env.edit (e : Env) (frame : Nat) (x : Edit) : Env :=
  match e.frame frame with
  | .object ref => { e with world := x.apply ref e.world }
  | _ => e

theorem Env.edit_object {e : Env} {frame ref : Nat} (h : e.frame frame = .object ref) (x : Edit) :
    e.edit frame x = { e with world := x.apply ref e.world } := by
  unfold edit
  rw [h]

theorem Env.edit_world (e : Env) (frame : Nat) (x : Edit) : ∃ w, e.edit frame x = { e with world := w } := by
  unfold edit
  split
  · exact ⟨_, rfl⟩
  · exact ⟨e.world, rfl⟩

namespace Table

variable {α : Type} {p : String → Bool} {name : String}

theorem filter_set (t : Table α) (v : α) (h : p name = false) :
    ((t.set name v).entries.filter fun e => p e.1) = t.entries.filter fun e => p e.1 := by
  obtain ⟨es⟩ := t
  unfold set
  dsimp only
  induction es with
  | nil => simp [setIn, h]
  | cons e es ih =>
    rw [setIn]
    by_cases he : e.1 = name
    · simp [he, h]
    · simp [he, List.filter_cons, ih]

theorem filter_erase (t : Table α) (h : p name = false) :
    ((t.erase name).entries.filter fun e => p e.1) = t.entries.filter fun e => p e.1 := by
  unfold erase
  rw [List.filter_filter]
  refine List.filter_congr fun e _ => ?_
  by_cases he : e.1 = name
  · simp [he, h]
  · simp [he]

theorem names_erase (t : Table α) (name : String) : (t.erase name).names = t.names.filter (· != name) := by
  unfold erase names
  rw [List.filter_map]
  rfl

end Table

namespace Edit

variable {p : String → Bool} {x : Edit}

/-- A change leaves the entries of other names as they are, and in order. -/
theorem filter_onEntries (t : Table Value) (h : p x.write.name = false) :
    ((x.onEntries t).entries.filter fun e => p e.1) = t.entries.filter fun e => p e.1 := by
  cases x with
  | set name v => exact t.filter_set v h
  | unset name => exact t.filter_erase h

theorem filter_names_onEntries (t : Table Value) (hunset : ∀ n, x.write = .unset n → p n = false)
    (hthere : p x.write.name = true → x.write.name ∈ t.names) :
    (x.onEntries t).names.filter p = t.names.filter p := by
  cases x with
  | set name v =>
    unfold onEntries
    rw [Table.names_set]
    split
    · rfl
    · next hfresh =>
      have hp : p name = false := Bool.eq_false_iff.2 fun hp => hfresh (hthere hp)
      simp [List.filter_append, hp]
  | unset name =>
    unfold onEntries
    rw [Table.names_erase, List.filter_filter]
    refine List.filter_congr fun n _ => ?_
    by_cases hn : n = name
    · simp [hn, hunset name rfl]
    · simp [hn]

theorem mem_names_onEntries {t : Table Value} {n : String} (h : n ∈ (x.onEntries t).names) :
    n ∈ t.names ∨ x.write = .set n := by
  cases x with
  | set name v =>
    unfold onEntries at h
    rw [Table.names_set] at h
    split at h
    · exact .inl h
    · rcases List.mem_append.1 h with h | h
      · exact .inl h
      · exact .inr (by rw [List.mem_singleton.1 h]; rfl)
  | unset name =>
    unfold onEntries at h
    rw [Table.names_erase] at h
    exact .inl (List.mem_filter.1 h).1

end Edit

def Table.edited (t : Table Value) (edits : List Edit) : Table Value := edits.foldl Edit.onEntries t

namespace Table

variable {p : String → Bool} {edits : List Edit}

theorem filter_edited (t : Table Value) (h : ∀ x ∈ edits, p x.write.name = false) :
    ((t.edited edits).entries.filter fun e => p e.1) = t.entries.filter fun e => p e.1 := by
  unfold edited
  induction edits generalizing t with
  | nil => rfl
  | cons x edits ih =>
    obtain ⟨hx, hedits⟩ := List.forall_mem_cons.1 h
    rw [List.foldl_cons, ih _ hedits, x.filter_onEntries t hx]

/-- Names that were there and are never removed stay, in order, also where they are set again. -/
theorem filter_names_edited (t : Table Value) (hunset : ∀ x ∈ edits, ∀ n, x.write = .unset n → p n = false)
    (hthere : ∀ n, p n = true → n ∈ t.names) : (t.edited edits).names.filter p = t.names.filter p := by
  unfold edited
  induction edits generalizing t with
  | nil => rfl
  | cons x edits ih =>
    obtain ⟨hx, hedits⟩ := List.forall_mem_cons.1 hunset
    have hfirst := x.filter_names_onEntries t hx (hthere _)
    rw [List.foldl_cons, ih _ hedits ?_, hfirst]
    intro n hn
    have hmem : n ∈ (x.onEntries t).names.filter p := hfirst ▸ List.mem_filter.2 ⟨hthere n hn, hn⟩
    exact (List.mem_filter.1 hmem).1

theorem mem_names_edited {t : Table Value} {n : String} (h : n ∈ (t.edited edits).names) :
    n ∈ t.names ∨ ∃ x ∈ edits, x.write = .set n := by
  unfold edited at h
  induction edits generalizing t with
  | nil => exact .inl h
  | cons x edits ih =>
    rcases ih h with h | ⟨y, hy, hn⟩
    · exact (Edit.mem_names_onEntries h).imp_right fun hx => ⟨x, List.mem_cons_self, hx⟩
    · exact .inr ⟨y, List.mem_cons_of_mem x hy, hn⟩

end Table

/-- Changes of a record put another one in its place, with the entries changed in turn. -/
theorem World.foldl_edits {w : World} {ref : Nat} {es : Table Value} (href : ref < w.objects.size)
    (h : w.object ref = .record es) (edits : List Edit) :
    edits.foldl (Edit.apply ref) w = w.update ref fun _ => .record (es.edited edits) := by
  induction edits generalizing w es with
  | nil =>
    calc w = w.update ref id := (w.update_id ref).symm
      _ = w.update ref fun _ => .record es := by rw [update_eq_put, id, h]
  | cons x edits ih =>
    have hx : x.apply ref w = w.update ref fun _ => .record (x.onEntries es) := by
      cases x with
      | set name v => exact setVariable_record h name v
      | unset name => exact unsetVariable_record h name
    rw [List.foldl_cons, hx, ih (by rwa [size_update]) (object_update _ href), update_update]
    rfl

end Stencil
