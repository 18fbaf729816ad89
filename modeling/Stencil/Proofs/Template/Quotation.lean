import Stencil.Proofs.Template.Concatenation
/-!
Quoted text. The directive that writes its body as it stands is stepped over wherever bodies are searched, whatever
tags, terminators or markers the body holds, and a text with the directive in it is rendered to the text with the body
in it.
-/
set_option autoImplicit false

namespace Stencil

open Text (byteLength)

namespace Quotation

def word : List Char := ['l', 'i', 't', 'e', 'r', 'a', 'l']

def opener : List Char := marker ++ '#' :: word

def terminator : List Char := marker ++ '/' :: (word ++ marker)

end Quotation

open Quotation

def quoted (t : List Char) : List Char := opener ++ (marker ++ (t ++ terminator))

/-- A text that may be quoted: it does not open the directive, and where the terminator follows the text there is none
before that. -/
structure Quotable (t : List Char) : Prop where
  opens : ¬opener <:+: t
  ends : ∀ a b, t ++ terminator = a ++ terminator ++ b → b = []

theorem quotable_iff {t : List Char} : Quotable t ↔
    Text.cut? opener t = none ∧ Text.cut? terminator (t ++ terminator) = some (t, []) := by
  obtain ⟨x, y, hcut, hle⟩ := Text.exists_cut? terminator t []
  rw [List.append_nil] at hcut
  have hx := Text.cut?_eq_some hcut
  constructor
  · intro h
    obtain rfl := h.ends x y hx
    rw [List.append_nil] at hx
    exact ⟨Text.cut?_eq_none_iff.2 h.opens, List.append_cancel_right hx ▸ hcut⟩
  · rintro ⟨hopens, hends⟩
    refine ⟨Text.cut?_eq_none_iff.1 hopens, fun a b hab => List.eq_nil_of_length_eq_zero ?_⟩
    obtain ⟨x', y', hcut', hle'⟩ := Text.exists_cut? terminator a b
    rw [← hab, hends] at hcut'
    cases hcut'
    have := congrArg List.length hab
    simp only [List.length_append] at this
    omega

instance {t : List Char} : Decidable (Quotable t) := decidable_of_iff' _ quotable_iff

theorem Quotable.cut {t : List Char} (h : Quotable t) (rest : List Char) :
    Text.cut? terminator (t ++ (terminator ++ rest)) = some (t, rest) := by
  have hcut := Text.cut?_append rest (quotable_iff.1 h).2
  rwa [List.append_assoc] at hcut

section Walk

variable {α : Type} {reg : Registry α} {pos stop : Nat} {p t s rest left : List Char} {ms : List Met}

def Met.plain (p : List Char) : List Met := if p.isEmpty then [] else [.text p]

theorem Walk.plain (hp : ¬marker <:+: p) (hedge : rest = [] ∨ marker <+: rest ∧ p.getLast? ≠ some '$')
    (w : Walk reg (pos + byteLength p) rest ms stop left) : Walk reg pos (p ++ rest) (Met.plain p ++ ms) stop left := by
  cases p with
  | nil => exact w
  | cons c p =>
    have hnext : Region.next pos (c :: p ++ rest) = .ok (some (.text (Region.spanOf pos (c :: p)), rest)) := by
      obtain rfl | ⟨⟨after, rfl⟩, hdollar⟩ := hedge
      · rw [List.append_nil]
        exact Region.next_text (by simp) (Text.cut?_eq_none_iff.2 hp)
      · refine Region.next_textBefore (by simp) ?_
        rw [Text.cut?_marker_append (Text.cut?_eq_none_iff.2 hp) fun h => absurd h hdollar, Text.cut?_word, Option.map_some,
          List.append_nil]
    have hwalk := Walk.text hnext w
    rwa [Text.before_append] at hwalk

def literalTag (pos : Nat) : Tag := Region.tagOf pos word

theorem name_literalTag (pos : Nat) : (literalTag pos).name = "literal" := by rfl

theorem stop_literalTag (pos : Nat) : (literalTag pos).span.stop = pos + byteLength (opener ++ marker) := by rfl

theorem next_literal (pos : Nat) (rest : List Char) :
    Region.next pos (opener ++ (marker ++ rest)) = .ok (some (.opening (literalTag pos), rest)) := by
  have hinside : Text.cut? marker (word ++ (marker ++ rest)) = some (word, rest) := by
    rw [Text.cut?_marker_append (by decide) (nofun : word.getLast? = some '$' → _), Text.cut?_word]
    rfl
  rw [show opener ++ (marker ++ rest) = marker ++ '#' :: (word ++ (marker ++ rest)) from rfl,
    Region.next_marked (Text.cut?_word _ _), Region.afterMarker, Region.close, hinside]
  rfl

def Extent.literal (pos : Nat) (t : List Char) : Extent :=
  ⟨[⟨none, (literalTag pos).span.stop, t⟩], pos + byteLength (quoted t)⟩

theorem find_literal {d : Directive α} (hreg : reg.get? "literal" = some d) (hbody : d.body "" = .verbatim)
    (ht : Quotable t) (pos : Nat) (rest : List Char) :
    ∃ found, FoundBody.find reg (literalTag pos) (t ++ (terminator ++ rest)) = .ok (some found) ∧
      found.seen = (.literal pos t, rest) := by
  have hterminator : (Fault.terminator (literalTag pos).name).toList = terminator := by
    rw [name_literalTag]
    rfl
  have hopener : Text.cut? ("$$#".toList ++ (literalTag pos).name.toList) t = none := by
    rw [name_literalTag]
    exact Text.cut?_eq_none_iff.2 ht.opens
  have hextent : Extent.literal pos t = ⟨[⟨none, (literalTag pos).span.stop, t⟩],
      (literalTag pos).span.stop + byteLength (t ++ terminator)⟩ := by
    rw [Extent.literal, stop_literalTag]
    simp only [quoted, Text.byteLength_append, Nat.add_assoc]
  exact FoundBody.find_iff.2 ⟨d, hreg, .inl ⟨hbody, t, hterminator ▸ ht.cut rest, hopener, hterminator ▸ hextent⟩⟩

theorem Walk.quoted {d : Directive α} (hreg : reg.get? "literal" = some d) (hbody : d.body "" = .verbatim)
    (ht : Quotable t) (w : Walk reg (pos + byteLength (quoted t)) rest ms stop left) :
    Walk reg pos (Stencil.quoted t ++ rest) (.directive (literalTag pos) (some (.literal pos t)) :: ms) stop left := by
  obtain ⟨found, hfind, hseen⟩ := find_literal hreg hbody ht pos rest
  obtain ⟨hextent, hrest⟩ := Prod.mk.inj hseen
  have hstop : found.stop = pos + byteLength (Stencil.quoted t) := congrArg Extent.stop hextent
  have hwalk : Walk reg found.stop found.rest ms stop left := by
    rwa [hrest, hstop]
  rw [← hextent, Stencil.quoted, List.append_assoc, List.append_assoc, List.append_assoc]
  exact .body (next_literal pos _) hfind hwalk

end Walk

/-! ### What is written -/

namespace Compile

variable {reg : Directives} {c : Compiler} {n : Names} {ns ms : List Node} {x y : String}

/-- Nodes that are compiled without a trace in the names and write a text, whatever the environment. -/
def Writes (reg : Directives) (c : Compiler) (n : Names) (ns : List Node) (x : String) : Prop :=
  ∃ ss, nodes reg ns c n = .ok (ss, n) ∧ ∀ h, Step.runAll h ss = Flow.write x

theorem Writes.nil : Writes reg c n [] "" := by
  refine ⟨[], rfl, fun h => funext fun e => ?_⟩
  show (Except.ok (), e) = (Except.ok (), e.write "")
  rw [Env.write_empty]

theorem Writes.append (hns : Writes reg c n ns x) (hms : Writes reg c n ms y) : Writes reg c n (ns ++ ms) (x ++ y) := by
  obtain ⟨ss, hss, hx⟩ := hns
  obtain ⟨ts, hts, hy⟩ := hms
  refine ⟨ss ++ ts, nodes_append_ok hss hts, fun h => funext fun e => ?_⟩
  rw [Step.runAll_append, hx, hy]
  show (Except.ok (), (e.write x).write y) = (Except.ok (), e.write (x ++ y))
  rw [Env.write_write]

theorem Writes.text {nd : Node} (h : node reg nd c n = .ok (.text x, n)) : Writes reg c n [nd] x := by
  refine ⟨[.text x], ?_, fun h => funext fun e => rfl⟩
  rw [nodes, bind_apply, h]
  rfl

end Compile

end Stencil
