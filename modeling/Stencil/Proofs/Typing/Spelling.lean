import Stencil.Proofs.Run.Agreement
import Stencil.Proofs.Scope.Spelling
import Stencil.Proofs.Typing.Members
import Stencil.Proofs.Typing.Twin
set_option autoImplicit false

namespace Stencil

def Respelling (cs : Bool) (n n' : String) : Prop := cs = false ∧ SameLetters n n'

/-- A context whose members do not tell spellings apart: an integer has none, and a record has one under every
name. -/
inductive Host.Levels (h : Host) (w : World) : Kind → Prop
  | int (k : IntKind) : Levels h w (.int k)
  | record {ref : Nat} {entries : Table Value} : w.object ref = .record entries → Apart entries.names →
    Levels h w (.object (.record ref))

/-- Only the outermost frame is open. The two scopes bind spellings of the same names in it. -/
structure Scope.Respelled (k : Stock) (s s' : Scope) : Prop where
  inner : s.inner = []
  inner' : s'.inner = []
  context : s'.root.context = s.root.context
  binder : s'.root.binder = s.root.binder
  slots : s'.slots = s.slots
  bindings : s.root.bindings.Respelled (Binding.Twin k false) s'.root.bindings
  apart : Apart s.root.bindings.names
  apart' : Apart s'.root.bindings.names

variable {n n' : String} {w : World} {h : Host} {kind : Kind} {s s' : Scope}

theorem Table.names_map {α β : Type} (f : α → β) (t : Table α) : (t.map f).names = t.names := by
  simp [Table.names, Table.map]

theorem Table.lookup_spelling {α : Type} {t : Table α} (ht : Apart t.names) (hn : SameLetters n n') :
    t.lookup false n' = t.lookup false n := by
  have hself : t.Respelled Eq t := List.forall₂_same.2 fun e _ => ⟨.refl e.1, rfl⟩
  obtain ⟨a, b, ha, hb, hab⟩ | ⟨ha, hb⟩ := rel_cases (hself.lookup ht ht hn)
  · rw [ha, hb, hab]
  · rw [ha, hb]

namespace Host.Levels

theorem objectType_record {ref : Nat} {entries : Table Value} (hobject : w.object ref = .record entries) :
    h.objectType w (.record ref) = .ofRecord w entries := by
  dsimp only [Host.objectType]
  rw [hobject]
  rfl

theorem variableKind? (hkind : h.Levels w kind) (hn : SameLetters n n') :
    h.variableKind? w false n' kind = h.variableKind? w false n kind := by
  cases hkind with
  | int k => rfl
  | @record ref entries hobject hentries =>
    unfold Host.variableKind? HostType.variableKind?
    dsimp only
    rw [objectType_record hobject]
    refine Table.lookup_spelling ?_ hn
    unfold HostType.ofRecord
    rw [Table.names_map]
    exact hentries

theorem callMember (st : Setting) (t : Typed) (hkind : st.host.Levels st.world t.kind) (name : String)
    (nameSpan span : Span) (ts : List Typed) :
    st.callMember t name nameSpan ts span = (do
      match ← st.resolve (st.request t name none nameSpan) with
      | some callee => Setting.callTyped callee name ts span
      | none => st.unresolved (.noMethod t.kind name) nameSpan) := by
  obtain ⟨code, kind⟩ := t
  cases hkind with
  | int k => rfl
  | record hobject hentries => rfl

variable {k : Stock}

theorem memberOf (hkind : h.Levels w kind) (hn : k.same false n n') (hspelling : SameLetters n n') (strict : Bool)
    (span : Span) :
    Option.Rel (Typed.Twin k) (memberOf h w ⟨⟨.context 0, kind⟩, n, none, span, false, strict⟩)
      (memberOf h w ⟨⟨.context 0, kind⟩, n', none, span, false, strict⟩) := by
  cases hkind with
  | int k => exact .none
  | @record ref entries hobject hentries =>
    have hvars := (Levels.record (h := h) hobject hentries).variableKind? hspelling
    rw [memberOf_record, memberOf_record, hvars]
    cases (h.variableKind? w false n (.object (.record ref))).or (if strict then none else some .any) with
    | some kind => exact .some ⟨rfl, .own hn⟩
    | none => exact .none

end Host.Levels

theorem Scope.lookup_of_root (hinner : s.inner = []) (h : Host) (w : World) (cs : Bool) (name : String) :
    s.lookup h w cs name = (meaning? h w cs name 0 s.root).map fun b => (0, b) := by
  unfold Scope.lookup Scope.frames
  rw [hinner]
  dsimp only [List.nil_append, lookupIn, List.length_nil]
  cases meaning? h w cs name 0 s.root <;> rfl

theorem Scope.declarationFrame_of_root (hinner : s.inner = []) : s.declarationFrame = 0 := by
  unfold Scope.declarationFrame Scope.frames
  rw [hinner]
  dsimp only [List.nil_append, findFrame?, List.length_nil]
  split <;> rfl

theorem Scope.binder?_of_root (hinner : s.inner = []) : s.binder? 0 = some s.root.binder := by
  unfold Scope.binder? Scope.frame? Scope.frames
  rw [hinner]
  rfl

theorem Scope.letOwner?_of_root (hinner : s.inner = []) (cs : Bool) (name : String) :
    (s.letOwner? cs name).isSome = (s.root.find? cs name).any Binding.isLet := by
  unfold Scope.letOwner? Scope.frames
  rw [hinner]
  dsimp only [List.nil_append, findFrame?, List.length_nil]
  split
  · next hlet => rw [hlet, Option.isSome_some]
  · next hlet => rw [Bool.eq_false_iff.2 hlet, Option.isSome_none]

namespace Scope.Respelled

variable {k : Stock}

theorem isSome_letOwner? (hs : s.Respelled k s') (hspelling : SameLetters n n') :
    (s'.letOwner? false n').isSome = (s.letOwner? false n).isSome := by
  rw [letOwner?_of_root hs.inner, letOwner?_of_root hs.inner']
  unfold Frame.find?
  obtain ⟨b, b', hb, hb', htwin⟩ | ⟨hb, hb'⟩ := rel_cases (hs.bindings.lookup hs.apart hs.apart' hspelling) <;>
    rw [hb, hb']
  cases htwin <;> rfl

theorem lookup (hs : s.Respelled k s') (hkind : h.Levels w s.root.context) (hn : k.same false n n')
    (hspelling : SameLetters n n') :
    Option.Rel (fun x y => x.1 = 0 ∧ y.1 = 0 ∧ Binding.Twin k false x.2 y.2) (s.lookup h w false n)
      (s'.lookup h w false n') := by
  have hmeaning : Option.Rel (Binding.Twin k false) (meaning? h w false n 0 s.root)
      (meaning? h w false n' 0 s'.root) := by
    unfold meaning? Frame.find?
    obtain ⟨b, b', hb, hb', htwin⟩ | ⟨hb, hb'⟩ := rel_cases (hs.bindings.lookup hs.apart hs.apart' hspelling)
    · rw [hb, hb']
      exact .some htwin
    · rw [hb, hb', hs.binder, hs.context, hkind.variableKind? hspelling]
      dsimp only
      split
      · cases h.variableKind? w false n s.root.context with
        | some kind => exact .some (.ofVariable 0 kind hn)
        | none => exact .none
      · exact .none
  rw [lookup_of_root hs.inner, lookup_of_root hs.inner']
  obtain ⟨b, b', hb, hb', htwin⟩ | ⟨hb, hb'⟩ := rel_cases hmeaning <;> rw [hb, hb']
  · exact .some ⟨rfl, rfl, htwin⟩
  · exact .none

theorem context? (hs : s.Respelled k s') (n : Nat) : s'.context? n = s.context? n := by
  unfold Scope.context? Scope.frames
  rw [hs.inner, hs.inner']
  cases n with
  | zero => exact congrArg some hs.context
  | succ n => rfl

theorem allocate (hs : s.Respelled k s') : s.allocate.2.Respelled k s'.allocate.2 :=
  ⟨hs.inner, hs.inner', hs.context, hs.binder, congrArg (· + 1) hs.slots, hs.bindings, hs.apart, hs.apart'⟩

theorem rebind (hs : s.Respelled k s') {t t' : Table Binding} (ht : t.Respelled (Binding.Twin k false) t')
    (happart : Apart t.names) (happart' : Apart t'.names) :
    ({ s with root := { s.root with bindings := t } } : Scope).Respelled k
      { s' with root := { s'.root with bindings := t' } } :=
  ⟨hs.inner, hs.inner', hs.context, hs.binder, hs.slots, ht, happart, happart'⟩

theorem declare (hs : s.Respelled k s') (hspelling : SameLetters n n')
    (hfits : ∀ m ∈ s.root.bindings.names, SameLetters m n → m = n)
    (hfits' : ∀ m ∈ s'.root.bindings.names, SameLetters m n' → m = n') {b b' : Binding}
    (hb : Binding.Twin k false b b') :
    (s.declare 0 n b).Respelled k (s'.declare 0 n' b') := by
  have hnames {t : Table Binding} {name : String} {a : Binding} (ht : Apart t.names)
      (hfits : ∀ m ∈ t.names, SameLetters m name → m = name) : Apart (t.set name a).names := by
    exact (ht.cons hfits).mono fun m hm => Table.mem_names_set hm
  exact hs.rebind (hs.bindings.set hspelling hfits hfits' hb) (hnames hs.apart hfits) (hnames hs.apart' hfits')

end Scope.Respelled

theorem Scope.remove_root (hinner : s.inner = []) (happart : Apart s.root.bindings.names) (name : String) :
    s.remove 0 false name = { s with root := { s.root with
      bindings := ⟨s.root.bindings.entries.filter fun e => !sameName false e.1 name⟩ } } := by
  have hframe : s.frame? 0 = some s.root := by
    unfold Scope.frame? Scope.frames
    rw [hinner]
    rfl
  unfold Scope.remove Scope.boundAs?
  rw [hframe]
  dsimp only [Option.bind_eq_bind, Option.bind_some]
  rw [Table.entry?_of_apart happart]
  cases hfound : s.root.bindings.entries.find? fun e => sameName false e.1 name with
  | none =>
    have hnone := List.find?_eq_none.1 hfound
    have hkept : s.root.bindings.entries.filter (fun e => !sameName false e.1 name) = s.root.bindings.entries :=
      List.filter_eq_self.2 fun e he => by simpa using hnone e he
    dsimp only
    rw [hkept]
  | some e =>
    have hmem := Table.mem_names (List.mem_of_find?_eq_some hfound)
    have hsame : SameLetters e.1 name :=
      List.find?_some (p := fun x : String × Binding => sameName false x.1 name) hfound
    have hkept : s.root.bindings.entries.filter (fun x => x.1 != e.1) =
        s.root.bindings.entries.filter fun x => !sameName false x.1 name := by
      refine List.filter_congr fun x hx => ?_
      have hclass : x.1 = e.1 ↔ SameLetters x.1 name := by
        constructor
        · intro hxe
          rw [hxe]
          exact hsame
        · exact fun hx' => happart x.1 (Table.mem_names hx) e.1 hmem (hx'.trans hsame.symm)
      rw [Bool.eq_iff_iff]
      simp only [bne_iff_ne, ne_eq, Bool.not_eq_true', hclass, SameLetters, Bool.not_eq_true]
    unfold Scope.modifyFrame Table.erase
    dsimp only
    rw [if_pos rfl, hkept]

theorem Scope.Respelled.remove {k : Stock} (hs : s.Respelled k s') (hspelling : SameLetters n n') :
    (s.remove 0 false n).Respelled k (s'.remove 0 false n') := by
  have hnames {t : Table Binding} (ht : Apart t.names) (name : String) :
      Apart (Table.names ⟨t.entries.filter fun e => !sameName false e.1 name⟩) := by
    rw [t.names_filter fun m => !sameName false m name]
    exact ht.mono fun m hm => (List.mem_filter.1 hm).1
  rw [Scope.remove_root hs.inner hs.apart, Scope.remove_root hs.inner' hs.apart']
  refine hs.rebind ?_ (hnames hs.apart n) (hnames hs.apart' n')
  refine List.rel_filter (fun x y hxy => ?_) hs.bindings
  dsimp only
  rw [hspelling.congr hxy.1]

theorem SameLetters.append_right {a b : String} (h : SameLetters a b) (more : String) :
    SameLetters (a ++ more) (b ++ more) := by
  unfold SameLetters at h ⊢
  rw [sameName_iff] at h ⊢
  simp only [Bool.false_eq_true, if_false, String.toList_append, List.map_append] at h ⊢
  rw [h]

theorem SameLetters.append_left {a b : String} (h : SameLetters a b) (before : String) :
    SameLetters (before ++ a) (before ++ b) := by
  unfold SameLetters at h ⊢
  rw [sameName_iff] at h ⊢
  simp only [Bool.false_eq_true, if_false, String.toList_append, List.map_append] at h ⊢
  rw [h]

theorem PathTwin.spelling {k : Stock} {p p' : List Expr.Segment} {cs : Bool}
    (hk : ∀ n n', k.same cs n n' → SameLetters n n')
    (hp : PathTwin k cs p p') : SameLetters (Setting.joinPath p) (Setting.joinPath p') := by
  obtain ⟨span, rest, hfirst⟩ := hp
  unfold Setting.joinPath
  cases rest with
  | nil => exact hk _ _ hfirst
  | cons m rest =>
    simp only [List.map_cons, String.intercalate_cons_cons, String.append_assoc]
    exact (hk _ _ hfirst).append_right _

/-- What code is made of in which the case of names does not count. -/
abbrev Outlook.respelling (o : Outlook) (exposed : Prop) : Stock := o.stock Respelling exposed False

namespace Setting

variable {st : Setting} {o : Outlook} {exposed : Prop}

theorem resolve_of_nil (st : Setting) (hresolvers : st.resolvers = []) (r : NameRequest) :
    st.resolve r = .ok (memberOf st.host st.world r) := by
  unfold resolve
  rw [hresolvers]
  rfl

theorem receiver_of_root (st : Setting) (hinner : st.scope.inner = []) :
    st.receiver = ⟨.context 0, st.scope.root.context⟩ := by
  unfold receiver Scope.current
  rw [hinner]
  rfl

theorem member_respelled (hs : st.scope.Respelled (o.respelling exposed) s')
    (hcs : st.caseSensitive = false) (hkind : st.host.Levels st.world st.scope.root.context)
    (hn : Respelling st.caseSensitive n n') (strict : Bool) (span : Span) :
    Option.Rel (Typed.Twin (o.respelling exposed))
      (memberOf st.host st.world
        (({ st with strict } : Setting).request ⟨.context 0, st.scope.root.context⟩ n none span))
      (memberOf st.host st.world
        ((({ st with strict } : Setting).inScope s').request ⟨.context 0, s'.root.context⟩ n' none span)) := by
  unfold request inScope
  dsimp only
  rw [hcs, hs.context]
  rw [hcs] at hn
  exact hkind.memberOf hn hn.2 strict span

section

variable (hst : st.Stocked (o.respelling exposed)) (hs : st.scope.Respelled (o.respelling exposed) s')
  (hcs : st.caseSensitive = false) (hresolvers : st.resolvers = [])
  (hkind : st.host.Levels st.world st.scope.root.context)
include hs hcs hresolvers hkind

/-- Spellings of a name mean the same in scopes that bind spellings of the same names. -/
theorem means_of_respelled (strict : Bool) (hn : Respelling st.caseSensitive n n') :
    Means ((o.respelling exposed).correspondence st.caseSensitive) { st with strict }
      { st.inScope s' with strict } n n' where
  lookup := by
    rw [hcs] at hn
    unfold Setting.lookup inScope
    dsimp only
    rw [hcs]
    exact rel_imp (hs.lookup hkind hn hn.2) fun _ _ h => h.2.2.bound
  own {span} _ := by
    rw [receiver_of_root { st with strict } hs.inner, receiver_of_root { st.inScope s' with strict } hs.inner',
      resolve_of_nil { st with strict } hresolvers, resolve_of_nil { st.inScope s' with strict } hresolvers]
    refine Meets.imp (.ok (member_respelled hs hcs hkind hn strict span)) fun _ _ h => ?_
    cases h with
    | some htwin => exact .found (htwin.matched _)
    | none => exact .unknown

include hst

theorem corresponds_of_respelled (htypes : Apart st.types.names) :
    Corresponds ((o.respelling exposed).correspondence st.caseSensitive) st (st.inScope s') := by
  have hheads : Heads ((o.respelling exposed).correspondence st.caseSensitive) st (st.inScope s') := by
    refine ⟨rfl, rfl, fun ns p p' hp => ?_, means_of_respelled hs hcs hresolvers hkind true⟩
    have hspelling (n n' : String) (hn : (o.respelling exposed).same st.caseSensitive n n') : SameLetters n n' := by
      rw [hcs] at hn
      exact hn.2
    have hpath : SameLetters (joinPath p) (joinPath p') := (pathTwin_iff.2 hp).spelling hspelling
    show st.types.lookup st.caseSensitive _ = _
    rw [hcs]
    exact Table.lookup_spelling htypes (hpath.append_left ns)
  refine ⟨hst.members s', hheads, fun _ id name _ => hst.takes (j := .object (.declared id name)) rfl, hst.variants,
    means_of_respelled hs hcs hresolvers hkind st.strict, ?_, hheads.staticCallee?,
    fun hcontexts n => ⟨hs.context? n, fun _ _ => .context n hcontexts⟩⟩
  intro n n' ts ts' hn hts nameSpan span _ _
  have hkind' : st.host.Levels st.world s'.root.context := by
    rw [hs.context]
    exact hkind
  rw [receiver_of_root st hs.inner, receiver_of_root (st.inScope s') hs.inner',
    Host.Levels.callMember st ⟨.context 0, st.scope.root.context⟩ hkind,
    Host.Levels.callMember (st.inScope s') ⟨.context 0, (st.inScope s').scope.root.context⟩ hkind',
    resolve_of_nil st hresolvers, resolve_of_nil (st.inScope s') hresolvers]
  refine Meets.bind (.ok (member_respelled hs hcs hkind hn st.strict nameSpan)) fun a b hab => ?_
  cases hab with
  | some htwin => exact (htwin.matched _).callTyped hts (.inr hn) trivial span
  | none => exact (hst.asks s').unresolved rfl _ trivial nameSpan

end

end Setting

end Stencil
