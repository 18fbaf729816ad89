import Stencil.Proofs.Host.Overload
import Stencil.Proofs.Table
import Stencil.Proofs.Value.Inhabits
import Stencil.Proofs.Value.Results
set_option autoImplicit false

namespace Stencil

structure Field.Reliable (f : Field) : Prop where
  kind : f.kind.Plain
  read : ∀ w v, Ensures (Has f.kind) (f.read w v)

structure Method.Reliable (m : Method) : Prop where
  params : ∀ k ∈ m.params, k.Plain
  returns : m.returns.Plain
  run : ∀ v args w w' u, m.run v args w = (.ok u, w') → Has m.returns u

theorem HostType.mem_of_methodsNamed {t : HostType} {cs : Bool} {name : String} {m : Method}
    (h : m ∈ t.methodsNamed cs name) : m ∈ t.methods := by
  simp only [methodsNamed, List.mem_filter, List.mem_append] at h
  obtain ⟨h | h, -⟩ := h <;> exact h.1

namespace Builtin

theorem mem_of_field? {fs : List Field} {t : HostType} {cs : Bool} {name : String} {f : Field}
    (ht : t.fields = fields fs) (h : t.field? cs name = some f) : f ∈ fs := by
  obtain ⟨n, hn⟩ := Table.mem_of_lookup h
  rw [ht] at hn
  obtain hn | ⟨e, he, rfl⟩ := Table.mem_foldl_set hn
  · cases hn
  · obtain ⟨f, hf, rfl⟩ := List.mem_map.1 he
    exact hf

theorem gives_text (w : World) (v : Value) : Gives (fun _ => True) (text w v) := by
  unfold text
  split
  · exact .ok trivial
  · exact .mismatch _ _

theorem gives_items (w : World) (v : Value) : Gives (fun vs => v = .list vs) (items w v) := by
  unfold items
  split
  · exact .ok rfl
  · exact .mismatch _ _

theorem gives_textArg (w : World) (args : List Value) (position : Nat) :
    Gives (fun _ => True) (textArg w args position) := by
  unfold textArg
  split
  · exact .ok trivial
  · exact gives_text w _
  · exact .error nofun

theorem gives_intArg (w : World) (args : List Value) (position : Nat) :
    Gives (fun _ => True) (intArg w args position) := by
  unfold intArg
  split
  · split
    · exact .ok trivial
    · exact .mismatch _ _
  · exact .error nofun

structure Drawn (k : Kind) (v u : Value) : Prop where
  has : Has k u
  made : u.From (· = v)

theorem drawn_text (v : Value) (cs : List Char) : Drawn .text v (ofChars cs) := ⟨.text _, .text _⟩

theorem drawn_bool (v : Value) (b : Bool) : Drawn .bool v (.bool b) := ⟨.bool b, .bool b⟩

theorem drawn_count (v : Value) (n : Int) : Drawn (.int .i32) v (ofCount n) := ⟨.int _ _, .wrapped n _⟩

theorem gives_substring (v : Value) (cs : List Char) (start : Int) (length : Option Int) :
    Gives (Drawn .text v) (substring cs start length) := by
  unfold substring
  split
  · exact .error nofun
  · split
    · split
      · exact .error nofun
      · exact .ok (drawn_text v _)
    · exact .ok (drawn_text v _)

theorem gives_textField {cs : Bool} {name : String} {f : Field} (h : textType.field? cs name = some f) (w : World)
    (v : Value) : Gives (Drawn f.kind v) (f.read w v) := by
  obtain rfl := List.mem_singleton.1 (mem_of_field? rfl h)
  exact (gives_text w v).bind fun _ _ => .ok (drawn_count v _)

theorem gives_listField {cs : Bool} {name : String} {f : Field} (h : listType.field? cs name = some f) (w : World)
    (v : Value) : Gives (Drawn f.kind v) (f.read w v) := by
  have hf := mem_of_field? rfl h
  simp only [List.mem_cons, List.not_mem_nil, or_false] at hf
  obtain rfl | rfl | rfl | rfl := hf <;> refine (gives_items w v).bind fun vs hvs => .ok ?_
  · exact drawn_count v _
  · exact drawn_count v _
  · exact ⟨.any, .getD fun u hu => .item (.given hvs.symm) (List.mem_of_head? hu)⟩
  · exact ⟨.any, .getD fun u hu => .item (.given hvs.symm) (List.mem_of_getLast? hu)⟩

theorem gives_textMethod {m : Method} (hm : m ∈ textType.methods) (v : Value) (args : List Value) (w : World) :
    Gives (Drawn m.returns v) (m.run v args w).1 := by
  simp only [textType, List.mem_cons, List.not_mem_nil, or_false] at hm
  have htext := gives_text w v
  have harg (n : Nat) := gives_textArg w args n
  have hint (n : Nat) := gives_intArg w args n
  obtain rfl | rfl | rfl | rfl | rfl | rfl | rfl | rfl | rfl | rfl | rfl := hm
  · exact htext.bind fun _ _ => .ok (drawn_text v _)
  · exact htext.bind fun _ _ => .ok (drawn_text v _)
  · exact htext.bind fun _ _ => .ok (drawn_text v _)
  · exact htext.bind fun _ _ => (harg 0).bind fun _ _ => .ok (drawn_bool v _)
  · exact htext.bind fun _ _ => (harg 0).bind fun _ _ => .ok (drawn_bool v _)
  · exact htext.bind fun _ _ => (harg 0).bind fun _ _ => .ok (drawn_bool v _)
  · exact htext.bind fun _ _ => (harg 0).bind fun _ _ => .ok (drawn_count v _)
  · exact htext.bind fun _ _ => (harg 0).bind fun _ _ => (harg 1).bind fun _ _ => .ok (drawn_text v _)
  · exact htext.bind fun _ _ => (hint 0).bind fun _ _ => gives_substring v _ _ _
  · exact htext.bind fun _ _ => (hint 0).bind fun _ _ => (hint 1).bind fun _ _ => gives_substring v _ _ _
  · refine (harg 0).bind fun _ _ => htext.bind fun _ _ => .ok ⟨.list fun x hx => ?_, .list fun x hx => ?_⟩ <;>
      obtain ⟨cs, -, rfl⟩ := List.mem_map.1 hx
    · exact .text _
    · exact .text _

theorem gives_listMethod {m : Method} (hm : m ∈ listType.methods) (v : Value) (args : List Value) (w : World) :
    Gives (Drawn m.returns v) (m.run v args w).1 := by
  simp only [listType, List.mem_cons, List.not_mem_nil, or_false] at hm
  obtain rfl | rfl := hm
  · exact (gives_items w v).bind fun _ _ => .ok (drawn_bool v _)
  · exact (gives_textArg w args 0).bind fun _ _ => (gives_items w v).bind fun _ _ => .ok (drawn_text v _)

end Builtin

/-- A type with members whose values are of their kinds, and nothing else. -/
structure HostType.Reliable (t : HostType) : Prop where
  field : ∀ {cs name f}, t.field? cs name = some f → f.Reliable
  method : ∀ {m}, m ∈ t.methods → m.Reliable
  static : ∀ cs name, t.static? cs name = none
  isDynamic : t.isDynamic = false

namespace Builtin

theorem reliable_textType : textType.Reliable where
  field h := by
    refine ⟨?_, fun w v u hu => ((gives_textField h w v).ensures u hu).has⟩
    obtain rfl := List.mem_singleton.1 (mem_of_field? rfl h)
    trivial
  method hm := by
    have hplain : ∀ m ∈ textType.methods, (∀ k ∈ m.params, k.Plain) ∧ m.returns.Plain := by
      simp [textType, pureMethod, Kind.Plain, Kind.Over]
    exact ⟨(hplain _ hm).1, (hplain _ hm).2, fun v args w w' u hu =>
      ((gives_textMethod hm v args w).ensures u (congrArg Prod.fst hu)).has⟩
  static := Table.lookup_empty
  isDynamic := rfl

theorem reliable_listType : listType.Reliable where
  field h := by
    refine ⟨?_, fun w v u hu => ((gives_listField h w v).ensures u hu).has⟩
    have hf := mem_of_field? rfl h
    simp only [List.mem_cons, List.not_mem_nil, or_false] at hf
    obtain rfl | rfl | rfl | rfl := hf <;> trivial
  method hm := by
    have hplain : ∀ m ∈ listType.methods, (∀ k ∈ m.params, k.Plain) ∧ m.returns.Plain := by
      simp [listType, pureMethod, Kind.Plain, Kind.Over]
    exact ⟨(hplain _ hm).1, (hplain _ hm).2, fun v args w w' u hu =>
      ((gives_listMethod hm v args w).ensures u (congrArg Prod.fst hu)).has⟩
  static := Table.lookup_empty
  isDynamic := rfl

end Builtin

theorem Host.reliable_describe {h : Host} {w : World} {k : Kind} {known : EnumType → Prop} {t : HostType}
    (hk : k.Over known) (ht : h.describe w k = some t) : t.Reliable := by
  cases k with
  | text => cases ht; exact Builtin.reliable_textType
  | list => cases ht; exact Builtin.reliable_listType
  | object => exact hk.elim
  | _ => cases ht

end Stencil
