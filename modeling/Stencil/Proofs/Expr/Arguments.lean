import Stencil.Expr.Arguments
import Stencil.Proofs.Expr.Level
set_option autoImplicit false

namespace Stencil.Arguments

open Stencil.Expr (Segment take parse)
open Stencil.Expr.Level (map_bind_parsed isNext_cases isNext_fixed)

variable (stop : Nat) (ts : List Placed)

/-! ### What the readers take from a token list -/

def takeName : Except SyntaxError (Segment × List Placed) := (bindingName stop ts).map Parsed.seen

def takeExpr : Except SyntaxError (Expr × List Placed) := Expr.Level.read stop .expression ts

def takeBindings : Except SyntaxError (List LetBinding × List Placed) := (letBindings stop ts).map Parsed.seen

def takeParameters : Except SyntaxError (List Segment × List Placed) := (parameters stop ts).map Parsed.seen

def takeHead : Except SyntaxError (DefineHead × List Placed) := (defineHead stop ts).map Parsed.seen

def takeAssertion : Except SyntaxError ((Expr × Option Expr) × List Placed) := (assertion stop ts).map Parsed.seen

def takeSegments : Except SyntaxError (List Segment × List Placed) := (segments stop ts).map Parsed.seen

/-! ### One turn of each loop, which goes on with `next` -/

def bindingsStep (next : List Placed → Except SyntaxError (List LetBinding × List Placed)) :
    Except SyntaxError (List LetBinding × List Placed) := do
  let (name, rest) ← takeName stop ts
  let (_, rest) ← take .eq stop rest
  let (value, rest) ← takeExpr stop rest
  if Placed.isNext .comma rest then do
    let (more, rest) ← next rest.tail
    return (⟨name.name, name.span, value⟩ :: more, rest)
  else return ([⟨name.name, name.span, value⟩], rest)

def parametersStep (next : List Placed → Except SyntaxError (List Segment × List Placed)) :
    Except SyntaxError (List Segment × List Placed) :=
  if Placed.isNext .rParen ts then do
    let (_, rest) ← take .rParen stop ts
    return ([], rest)
  else do
    let (name, rest) ← takeName stop ts
    if Placed.isNext .rParen rest then do
      let (_, rest) ← take .rParen stop rest
      return ([name], rest)
    else do
      let (_, rest) ← take .comma stop rest
      let (more, rest) ← next rest
      return (name :: more, rest)

def segmentsStep (next : List Placed → Except SyntaxError (List Segment × List Placed)) :
    Except SyntaxError (List Segment × List Placed) :=
  match ts with
  | ⟨.name n, span⟩ :: rest =>
    if Placed.isNext .dot rest then do
      let (more, rest) ← next rest.tail
      return (⟨n, span⟩ :: more, rest)
    else return ([⟨n, span⟩], rest)
  | ts => .error ⟨.unexpected (Placed.next? ts) .inNamespace, Placed.here stop ts⟩

theorem takeBindings_eq : takeBindings stop ts = bindingsStep stop ts (takeBindings stop) := by
  unfold takeBindings bindingsStep
  rw [letBindings]
  refine map_bind_parsed fun name rest _ => map_bind_parsed fun _ rest₁ _ => map_bind_parsed fun value rest₂ _ => ?_
  rcases isNext_cases .comma rest₂ with ⟨span, rest₃, rfl⟩ | hc
  · simp only [isNext_fixed, if_true, List.tail_cons]
    exact map_bind_parsed fun more _ _ => rfl
  · simp only [hc]
    split
    · simp [Placed.isNext] at hc
    · rfl

theorem takeParameters_eq : takeParameters stop ts = parametersStep stop ts (takeParameters stop) := by
  unfold takeParameters parametersStep
  rw [parameters]
  split
  · exact map_bind_parsed fun _ _ _ => rfl
  · refine map_bind_parsed fun name rest _ => ?_
    dsimp only
    split
    · exact map_bind_parsed fun _ _ _ => rfl
    · exact map_bind_parsed fun _ _ _ => map_bind_parsed fun _ _ _ => rfl

theorem takeHead_eq :
    takeHead stop ts = (do
      let (name, rest) ← takeName stop ts
      if Placed.isNext .eq rest then
        if Placed.isNext .question rest.tail then do
          let (value, rest) ← takeExpr stop rest.tail.tail
          return (⟨name.name, name.span, .value true value⟩, rest)
        else do
          let (value, rest) ← takeExpr stop rest.tail
          return (⟨name.name, name.span, .value false value⟩, rest)
      else if Placed.isNext .lParen rest then do
        let (params, rest) ← takeParameters stop rest.tail
        return (⟨name.name, name.span, .body (some params)⟩, rest)
      else return (⟨name.name, name.span, .body none⟩, rest)) := by
  unfold takeHead
  rw [defineHead]
  refine map_bind_parsed fun name rest _ => ?_
  rcases isNext_cases .eq rest with ⟨span, rest, rfl⟩ | he
  · simp only [isNext_fixed, if_true, List.tail_cons]
    rcases isNext_cases .question rest with ⟨span', rest, rfl⟩ | hq
    · simp only [isNext_fixed, if_true, List.tail_cons]
      exact map_bind_parsed fun value _ _ => rfl
    · simp only [hq]
      split
      · next heq _ =>
        obtain ⟨-, rfl⟩ := List.cons.inj heq
        simp [Placed.isNext] at hq
      · next heq _ =>
        obtain ⟨-, rfl⟩ := List.cons.inj heq
        exact map_bind_parsed fun value _ _ => rfl
      · next heq _ => simp at heq
      · next h _ => exact (h _ _ _ rfl HEq.rfl).elim
  · rcases isNext_cases .lParen rest with ⟨span, rest, rfl⟩ | hp
    · exact map_bind_parsed fun params _ _ => rfl
    · simp only [he, hp]
      split
      · simp [Placed.isNext] at he
      · simp [Placed.isNext] at he
      · simp [Placed.isNext] at hp
      · rfl

theorem takeAssertion_eq :
    takeAssertion stop ts = (do
      let (predicate, rest) ← takeExpr stop ts
      if Placed.isNext .comma rest then do
        let (message, rest) ← takeExpr stop rest.tail
        return ((predicate, some message), rest)
      else return ((predicate, none), rest)) := by
  unfold takeAssertion assertion
  refine map_bind_parsed fun predicate rest _ => ?_
  rcases isNext_cases .comma rest with ⟨span, rest, rfl⟩ | hc
  · simp only [isNext_fixed, if_true, List.tail_cons]
    exact map_bind_parsed fun message _ _ => rfl
  · simp only [hc]
    split
    · simp [Placed.isNext] at hc
    · rfl

theorem takeSegments_eq : takeSegments stop ts = segmentsStep stop ts (takeSegments stop) := by
  unfold takeSegments segmentsStep
  rw [segments.eq_def]
  split
  · simp only [isNext_fixed, if_true, List.tail_cons]
    exact map_bind_parsed fun more _ _ => rfl
  · next n span rest hno =>
    rcases isNext_cases .dot rest with ⟨span', rest', rfl⟩ | hd
    · exact (hno span' rest' rfl).elim
    · simp only [hd]
      rfl
  · next h₁ h₂ =>
    split
    · next n span rest => exact (h₂ n span rest rfl).elim
    · rfl

end Stencil.Arguments

namespace Stencil.Expr

theorem readWhole_eq {α : Type} (wanted : Wanted) (place : Place) (reader : Nat → (ts : List Placed) → Reading α ts)
    (text : String) (base : Nat) :
    readWhole wanted place reader text base = (do
      let ts ← Placed.ofText text base
      if ts.isEmpty then throw ⟨.nothing wanted, ⟨base, base + Text.byteLength text.toList⟩⟩
      let (a, rest) ← (reader (Placed.endOf base ts) ts).map Parsed.seen
      finish place a rest) := by
  unfold readWhole
  cases Placed.ofText text base with
  | error e => rfl
  | ok ts =>
    simp only [bind, Except.bind]
    split
    · rfl
    · cases reader (Placed.endOf base ts) ts <;> rfl

theorem readWhole_eq_ok_iff {α : Type} {wanted : Wanted} {place : Place}
    {reader : Nat → (ts : List Placed) → Reading α ts} {text : String} {base : Nat} {a : α} :
    readWhole wanted place reader text base = .ok a ↔ ∃ ts, Placed.ofText text base = .ok ts ∧
      (reader (Placed.endOf base ts) ts).map Parsed.seen = .ok (a, []) := by
  rw [readWhole_eq]
  constructor
  · intro h
    obtain ⟨ts, hts, h⟩ := exists_of_bind_ok h
    dsimp only at h
    split at h
    · cases h
    · obtain ⟨⟨b, rest⟩, hread, h⟩ := exists_of_bind_ok h
      cases rest with
      | nil => cases h; exact ⟨ts, hts, hread⟩
      | cons t rest => cases h
  · rintro ⟨ts, hts, hread⟩
    obtain ⟨hl, -⟩ := parsed_of_seen hread
    have hne : ts.isEmpty = false := by
      cases ts with
      | nil => cases hl
      | cons t ts => rfl
    simp only [hts, bind, Except.bind, hne, hread]
    rfl

end Stencil.Expr
