import Stencil.Proofs.Value.Parts
set_option autoImplicit false

namespace Stencil

structure World.Agree (p : Parts) (w w' : World) : Prop where
  object : ∀ ref, p.object ref → w'.object ref = w.object ref
  type : ∀ ref, (w'.object ref).type = (w.object ref).type
  size : w'.objects.size = w.objects.size
  format : w'.format = w.format
  madeOf : w.MadeOf p

/-- The worlds that values made of some parts may stand in, two by two. -/
structure Outlook where
  parts : Parts
  world : World → World → Prop
  agree : ∀ {w w'}, world w w' → w.Agree parts w'

variable {p : Parts} {w w' : World} {l r v u : Value}

theorem Value.textsWith_eq_map (f : NumberFormat) (ofObject : Nat → String) (vs : List Value) :
    Value.textsWith f ofObject vs = vs.map (Value.textWith f ofObject) := by
  induction vs with
  | nil => rfl
  | cons v vs ih => rw [Value.textsWith, ih, List.map_cons]

theorem Value.MadeOf.textWith_congr (hv : v.MadeOf p) {f : NumberFormat} {ofObject ofObject' : Nat → String}
    (h : ∀ ref, p.object ref → ofObject' ref = ofObject ref) : v.textWith f ofObject' = v.textWith f ofObject := by
  induction hv with
  | list _ ih =>
    simp only [Value.textWith, Value.textsWith_eq_map]
    rw [List.map_congr_left ih]
  | object href => exact h _ href
  | _ => rfl

namespace World.Agree

theorem refl (h : w.MadeOf p) : w.Agree p w := ⟨fun _ _ => rfl, fun _ => rfl, rfl, rfl, h⟩

theorem kind (hw : w.Agree p w') (v : Value) : v.kind w' = v.kind w := by
  cases v with
  | object ref =>
    dsimp only [Value.kind]
    rw [hw.type ref]
  | _ => rfl

theorem objectText (hw : w.Agree p w') (depth : Nat) {ref : Nat} (href : p.object ref) :
    w'.objectText depth ref = w.objectText depth ref := by
  induction depth generalizing ref with
  | zero => rfl
  | succ depth ih =>
    have hentries (es : Table Value) (hes : (w.object ref).entries? = some es) :
        ∀ e ∈ es.entries, e.2.MadeOf p := by
      unfold Object.entries? at hes
      split at hes
      · obtain ⟨vs, hvs, rfl⟩ := Option.map_eq_some_iff.1 hes
        exact (hw.madeOf ref href).vars vs hvs
      · cases hes
    unfold World.objectText
    rw [hw.object ref href, hw.format]
    dsimp only
    cases (w.object ref).text with
    | some s => rfl
    | none =>
      cases hes : (w.object ref).entries? with
      | none => rfl
      | some es =>
        have hshown : es.entries.map (fun e => e.1 ++ ": " ++ e.2.textWith w.format (w'.objectText depth)) =
            es.entries.map fun e => e.1 ++ ": " ++ e.2.textWith w.format (w.objectText depth) := by
          refine List.map_congr_left fun e he => ?_
          rw [(hentries es hes e he).textWith_congr fun ref href => ih href]
        dsimp only
        rw [hshown]

theorem display (hw : w.Agree p w') (hv : v.MadeOf p) : v.display w' = v.display w := by
  unfold Value.display
  rw [hw.size, hw.format]
  exact hv.textWith_congr fun ref href => hw.objectText _ href

theorem equals (hw : w.Agree p w') (hl : l.MadeOf p) (hr : r.MadeOf p) : l.equals w' r = l.equals w r := by
  have hleft := hw.display hl
  have hright := hw.display hr
  induction hl generalizing r with
  | null => cases hr <;> rfl
  | text s =>
    cases hr with
    | null | text => rfl
    | _ => exact congrArg (s == ·) hright
  | @list items hitems ih =>
    cases hr with
    | text s => exact congrArg (· == s) hleft
    | @list items' hitems' =>
      -- item by item
      have hall : Value.equalsAll w' items items' = Value.equalsAll w items items' := by
        clear hleft hright
        induction items generalizing items' with
        | nil => cases items' <;> rfl
        | cons v vs ihvs =>
          cases items' with
          | nil => rfl
          | cons v' vs' =>
            rw [List.forall_mem_cons] at ih hitems hitems'
            have hhead := ih.1 hitems'.1 (hw.display hitems.1) (hw.display hitems'.1)
            rw [Value.equalsAll, Value.equalsAll, hhead, ihvs hitems.2 ih.2 hitems'.2]
      exact hall
    | _ => rfl
  | _ =>
    cases hr with
    | text s => exact congrArg (· == s) hleft
    | _ => rfl

theorem position (hw : w.Agree p w') (i : Value) (n : Nat) : Host.position w' i n = Host.position w i n := by
  unfold Host.position
  rw [hw.kind]

theorem index (hw : w.Agree p w') (hv : v.MadeOf p) (i : Value) : Host.index w' v i = Host.index w v i := by
  cases hv with
  | @object ref href => simp only [Host.index, hw.object ref href, hw.position]
  | _ => simp only [Host.index, hw.position, hw.kind]

theorem elements (hw : w.Agree p w') (hv : v.MadeOf p) : v.elements w' = v.elements w := by
  cases hv with
  | @object ref href => simp only [Value.elements, hw.object ref href]
  | _ => simp only [Value.elements, hw.kind]

theorem convert (hw : w.Agree p w') (target : Kind) (v : Value) : v.convert w' target = v.convert w target := by
  induction target generalizing v with
  | list element ih =>
    have hitems : Value.convert w' element = Value.convert w element := funext ih
    unfold Value.convert
    rw [hw.kind]
    dsimp only
    rw [hitems]
  | _ =>
    unfold Value.convert
    rw [hw.kind]

theorem isMatch (hw : w.Agree p w') (hl : l.MadeOf p) (r : Value) :
    BinaryOp.isMatch w' l r = BinaryOp.isMatch w l r := by
  simp only [BinaryOp.isMatch, hw.display hl, hw.kind]

theorem arithmetic (hw : w.Agree p w') (op : BinaryOp) (l r : Value) :
    op.arithmetic w' l r = op.arithmetic w l r := by
  simp only [BinaryOp.arithmetic, hw.kind]

theorem binary (hw : w.Agree p w') (hl : l.MadeOf p) (hr : r.MadeOf p) (op : BinaryOp) :
    op.apply w' l r = op.apply w l r := by
  have hleft := hw.display hl
  have hright := hw.display hr
  cases op with
  | eq | ne => simp only [BinaryOp.apply, hw.equals hl hr]
  | and | or | coalesce => rfl
  | matched | unmatched => simp only [BinaryOp.apply, hw.isMatch hl]
  | lt | le | gt | ge => simp only [BinaryOp.apply, BinaryOp.relational, hw.kind]
  | mul | div | rem | sub => exact hw.arithmetic _ l r
  | add =>
    -- a text on either side asks for the text of the other
    unfold BinaryOp.apply
    dsimp only
    split
    · rw [hright]
    · rw [hleft]
    · exact hw.arithmetic _ _ _
  | bitAnd | bitXor | bitOr => simp only [BinaryOp.apply, BinaryOp.bitwise, hw.kind]

theorem unary (hw : w.Agree p w') (op : UnaryOp) (v : Value) : op.apply w' v = op.apply w v := by
  simp only [UnaryOp.apply, hw.kind]

end World.Agree

end Stencil
