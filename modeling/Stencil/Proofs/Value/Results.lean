import Stencil.Operator.Apply
import Stencil.Proofs.Except
import Stencil.Proofs.Numeric.Basic
import Stencil.Value.Convert
set_option autoImplicit false

namespace Stencil

def Settles {α : Type} (x : Except Failure α) : Prop := ∀ n, x ≠ .error (.unresolved n)

theorem Settles.ok {α : Type} (a : α) : Settles (.ok a) := nofun

theorem Settles.error {α : Type} {f : Failure} (h : ∀ n, f ≠ .unresolved n) :
    Settles (.error f : Except Failure α) := by
  rintro n ⟨⟩
  exact h n rfl

/-- A result that satisfies a condition, or a failure that is not an unresolved name. -/
inductive Gives {α : Type} (P : α → Prop) : Except Failure α → Prop
  | ok {a : α} : P a → Gives P (.ok a)
  | error {f : Failure} : (∀ n, f ≠ .unresolved n) → Gives P (.error f)

namespace Gives

variable {α β : Type} {P : α → Prop} {Q : β → Prop} {x : Except Failure α}

theorem mismatch (wanted given : String) : Gives P (.error (.mismatch wanted given)) := .error nofun

theorem settles (h : Gives P x) : Settles x := by
  cases h with
  | ok => exact .ok _
  | error h => exact .error h

theorem ensures (h : Gives P x) : Ensures P x := by
  rintro a rfl
  cases h with
  | ok ha => exact ha

theorem of_settles (h : Settles x) : Gives (fun _ => True) x := by
  cases x with
  | ok a => exact .ok trivial
  | error f => exact .error fun n hn => h n (hn ▸ rfl)

theorem imp {P' : α → Prop} (hx : Gives P x) (h : ∀ a, P a → P' a) : Gives P' x := by
  cases hx with
  | ok ha => exact .ok (h _ ha)
  | error h => exact .error h

theorem bind {f : α → Except Failure β} (hx : Gives P x) (hf : ∀ a, P a → Gives Q (f a)) : Gives Q (x >>= f) := by
  cases hx with
  | ok ha => exact hf _ ha
  | error h => exact .error h

theorem map {f : α → β} (hx : Gives P x) (hf : ∀ a, P a → Q (f a)) : Gives Q (x.map f) := by
  cases hx with
  | ok ha => exact .ok (hf _ ha)
  | error h => exact .error h

theorem mapM {f : α → Except Failure β} {as : List α} (h : ∀ a ∈ as, Gives Q (f a)) :
    Gives (fun bs => ∀ b ∈ bs, Q b) (as.mapM f) := by
  induction as with
  | nil => exact .ok nofun
  | cons a as ih =>
    rw [List.mapM_cons]
    obtain ⟨ha, has⟩ := List.forall_mem_cons.1 h
    exact ha.bind fun b hb => (ih has).bind fun bs hbs => .ok (List.forall_mem_cons.2 ⟨hb, hbs⟩)

end Gives

/-- A value that is made of given ones: one of them, a part of one, or a new value that holds no object. New
integers lie in the range of their kind. -/
inductive Value.From (given : Value → Prop) : Value → Prop
  | given {v : Value} : given v → From given v
  | item {items : List Value} {v : Value} : From given (.list items) → v ∈ items → From given v
  | null : From given .null
  | bool (b : Bool) : From given (.bool b)
  | int {n : Int} {k : IntKind} : k.contains n = true → From given (.int n k)
  | float (x : Float) (k : FloatKind) : From given (.float x k)
  | text (s : String) : From given (.text s)
  | enum {t : EnumType} {m n : Int} : From given (.enum t m) → t.underlying.contains n = true → From given (.enum t n)
  | underlying {t : EnumType} {n : Int} : From given (.enum t n) → From given (.int n t.underlying)
  | list {items : List Value} : (∀ v ∈ items, From given v) → From given (.list items)

namespace Value.From

variable {given given' : Value → Prop} {v : Value}

theorem wrapped (n : Int) (k : IntKind) : (Value.wrapped n k).From given := .int (k.contains_wrap n)

theorem getD {o : Option Value} (ho : ∀ v ∈ o, v.From given) : (o.getD .null).From given := by
  cases o with
  | none => exact .null
  | some v => exact ho v rfl

theorem trans (h : v.From given') (hg : ∀ u, given' u → u.From given) : v.From given := by
  induction h with
  | given h => exact hg _ h
  | item _ hmem ih => exact ih.item hmem
  | null => exact .null
  | bool b => exact .bool b
  | int h => exact .int h
  | float x k => exact .float x k
  | text s => exact .text s
  | enum _ h ih => exact ih.enum h
  | underlying _ ih => exact ih.underlying
  | list _ ih => exact .list ih

end Value.From

variable {w : World} {l r v : Value}

namespace Regex

theorem gives_readFlags (source : String) (f : Pattern.Flags) (cs : List Char) :
    Gives (fun _ => True) (readFlags source f cs) := by
  induction cs generalizing f with
  | nil => exact .ok trivial
  | cons c cs ih =>
    unfold readFlags
    split
    · exact ih _
    · exact .error nofun

theorem gives_ofText (source flags : String) : Gives (fun _ => True) (ofText source flags) := by
  refine (gives_readFlags _ _ _).bind fun f _ => ?_
  split
  · exact .ok trivial
  · exact .error nofun

end Regex

namespace BinaryOp

variable (op : BinaryOp)

abbrev Yield (l r u : Value) : Prop := u.From fun v => v = l ∨ v = r

theorem gives_isMatch (w : World) (l r : Value) : Gives (fun _ => True) (isMatch w l r) := by
  unfold isMatch
  split
  · exact .ok trivial
  · exact (Regex.gives_ofText _ _).bind fun _ _ => .ok trivial
  · exact .ok trivial
  · exact .mismatch _ _

theorem gives_relational (w : World) (l r : Value) : Gives (Yield l r) (op.relational w l r) := by
  unfold relational
  split
  · exact .ok (.bool _)
  · split
    · exact .ok (.bool _)
    · exact .mismatch _ _

theorem gives_onInts (a b : Int) (k : IntKind) : Gives (Yield l r) (op.onInts a b k) := by
  unfold onInts
  dsimp only
  split
  · exact .ok (.wrapped _ k)
  · exact .ok (.wrapped _ k)
  · exact .ok (.wrapped _ k)
  all_goals
    split
    · exact .error nofun
    · exact .ok (.wrapped _ k)

theorem gives_arithmetic (w : World) (l r : Value) : Gives (Yield l r) (op.arithmetic w l r) := by
  unfold arithmetic
  dsimp only
  split
  · exact .ok .null
  · split
    · split
      · exact gives_onInts op _ _ _
      · exact .mismatch _ _
    · split
      · refine .ok ?_
        unfold onFloats
        dsimp only
        split <;> exact .float _ _
      · exact .mismatch _ _
    · exact .mismatch _ _

theorem gives_bitwise (w : World) (l r : Value) : Gives (Yield l r) (op.bitwise w l r) := by
  unfold bitwise
  split
  · exact .ok (.bool _)
  · split
    · exact .ok (.enum (.given (.inl rfl)) (IntKind.contains_wrap _ _))
    · exact .ok (.wrapped _ _)
  · split
    · exact .ok (.wrapped _ _)
    · exact .mismatch _ _

theorem gives_apply (w : World) (l r : Value) : Gives (Yield l r) (op.apply w l r) := by
  cases op with
  | eq | ne | and | or => exact .ok (.bool _)
  | coalesce =>
    refine .ok ?_
    split
    · exact .given (.inr rfl)
    · exact .given (.inl rfl)
  | matched | unmatched => exact (gives_isMatch w l r).map fun _ _ => .bool _
  | lt | le | gt | ge => exact gives_relational _ w l r
  | add =>
    unfold apply
    dsimp only
    split
    · exact .ok (.text _)
    · exact .ok (.text _)
    · exact gives_arithmetic _ w _ _
  | mul | div | rem | sub => exact gives_arithmetic _ w l r
  | bitAnd | bitXor | bitOr => exact gives_bitwise _ w l r

end BinaryOp

theorem UnaryOp.gives_apply (op : UnaryOp) (w : World) (v : Value) : Gives (Value.From (· = v)) (op.apply w v) := by
  unfold apply
  split
  · exact .ok (.bool _)
  · exact .ok .null
  · exact .ok (.float _ _)
  · exact .ok (.float _ _)
  · exact .ok (.enum (.given rfl) (IntKind.contains_wrap _ _))
  · split
    · next k n hk hn =>
      refine .ok ?_
      unfold onInt
      split
      · exact .wrapped _ _
      · exact .wrapped _ _
      · -- the sign of a number keeps it, and that of an enum value gives its integer
        cases v with
        | int => cases hk; cases hn; exact .given rfl
        | enum => cases hk; cases hn; exact .underlying (.given rfl)
        | _ => cases hn
    · exact .mismatch _ _

theorem Value.gives_convert (w : World) (target : Kind) (v : Value) : Gives (From (· = v)) (v.convert w target) := by
  induction target generalizing v with
  | int k =>
    unfold convert
    dsimp only
    split
    · exact .ok (.given rfl)
    · split
      · split
        · next hn => exact .ok (.int hn)
        · exact .mismatch _ _
      · split
        · next hn => exact .ok (.int hn)
        · exact .mismatch _ _
      · exact .mismatch _ _
  | float k =>
    unfold convert
    dsimp only
    split
    · exact .ok (.given rfl)
    · split
      · exact .ok (.float _ _)
      · split
        · exact .ok (.float _ _)
        · exact .mismatch _ _
      · exact .mismatch _ _
  | list element ih =>
    unfold convert
    dsimp only
    split
    · exact .ok (.given rfl)
    · split
      · next items _ =>
        refine (Gives.mapM (Q := From (· = .list items)) fun x hx => ?_).bind fun us hus => .ok (.list hus)
        refine (ih x).imp fun u hu => hu.trans ?_
        rintro _ rfl
        exact .item (.given rfl) hx
      · exact .mismatch _ _
  | _ =>
    unfold convert
    dsimp only
    split
    · exact .ok (.given rfl)
    · exact .mismatch _ _

end Stencil
