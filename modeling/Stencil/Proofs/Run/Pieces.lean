import Stencil.Proofs.Run.Frames
import Stencil.Proofs.Scope.Alike
import Stencil.Proofs.Table
/-!
Templates of text, names, definitions and conditions. Each definition has a slot of its own, and a run of what they
are compiled to is a replay in which a name reads the last definition before it, or the last that was executed;
these are the same where nothing that was gone past follows what was executed.
-/
set_option autoImplicit false

namespace Stencil

/-! ### Histories -/

/-- A definition that a run has come to, with its value; one that the run has gone past has none. -/
structure Event where
  name : String
  value : Option Value

/-- The definitions up to a place in the text, the last one first. -/
abbrev History : Type := List Event

namespace History

def pass (names : List String) (hist : History) : History :=
  names.foldl (fun hist name => ⟨name, none⟩ :: hist) hist

def table : History → Table (Option Value)
  | [] => .empty
  | ev :: hist => (table hist).set ev.name ev.value

/-- What a name reads when the last definition before it counts, executed or not. -/
def lexical? (cs : Bool) (hist : History) (name : String) : Option Value := (hist.table.lookup cs name).join

/-- What a name reads when the last executed definition before it counts. -/
def executed? (cs : Bool) (hist : History) (name : String) : Option Value :=
  hist.findSome? fun ev => if sameName cs ev.name name then ev.value else none

def text (w : World) : Option Value → String
  | some v => v.display w
  | none => ""

/-- Names that count as one are spelled in one way, and no definition that was gone past follows one of the same
name that was executed. -/
def Settled (cs : Bool) (hist : History) : Prop :=
  hist.Pairwise fun ev older => sameName cs ev.name older.name = true →
    ev.name = older.name ∧ (ev.value = none → older.value = none)

instance (cs : Bool) (hist : History) : Decidable (hist.Settled cs) :=
  inferInstanceAs (Decidable (hist.Pairwise _))

variable {cs : Bool} {hist : History}

theorem exists_event {e : String × Option Value} (he : e ∈ hist.table.entries) : ∃ ev ∈ hist, ev.name = e.1 := by
  induction hist with
  | nil => cases he
  | cons ev hist ih =>
    rcases Table.mem_set he with he | rfl
    · obtain ⟨ev', hev', hname⟩ := ih he
      exact ⟨ev', List.mem_cons_of_mem ev hev', hname⟩
    · exact ⟨ev, List.mem_cons_self, rfl⟩

theorem lexical?_of_settled (h : hist.Settled cs) (name : String) : hist.lexical? cs name = hist.executed? cs name := by
  induction hist with
  | nil => cases cs <;> rfl
  | cons ev hist ih =>
    obtain ⟨hev, hhist⟩ := List.pairwise_cons.1 h
    unfold lexical? executed? table
    rw [List.findSome?_cons]
    by_cases hname : sameName cs ev.name name = true
    · rw [if_pos hname]
      have hsame (older : Event) (holder : older ∈ hist) (hmatch : sameName cs older.name name = true) :=
        hev older holder (sameName_trans hname (sameName_symm hmatch))
      have hset : ((table hist).set ev.name ev.value).lookup cs name = some ev.value := by
        refine Table.lookup_set_of_same ev.value hname fun e he hmatch => ?_
        obtain ⟨older, holder, hold⟩ := exists_event he
        rw [← hold] at hmatch ⊢
        exact (hsame older holder hmatch).1.symm
      rw [hset]
      cases hvalue : ev.value with
      | some v => rfl
      | none =>
        -- The older ones of the name were gone past as well.
        have hnone : (hist.findSome? fun ev => if sameName cs ev.name name then ev.value else none) = none := by
          refine List.findSome?_eq_none_iff.2 fun older holder => ?_
          split
          · next hmatch => exact (hsame older holder hmatch).2 hvalue
          · rfl
        rw [hnone]
        rfl
    · rw [if_neg hname, Table.lookup_set_of_apart _ _ (Bool.eq_false_iff.2 hname)]
      exact ih hhist

example : History.Settled true [⟨"n", some (.text "b")⟩, ⟨"m", none⟩, ⟨"n", some (.text "a")⟩] := by decide

example : ¬ History.Settled true [⟨"n", none⟩, ⟨"n", some (.text "a")⟩] := by decide

theorem map_name_pass (names : List String) (hist : History) :
    (hist.pass names).map Event.name = names.reverse ++ hist.map Event.name := by
  induction names generalizing hist with
  | nil => rfl
  | cons name names ih =>
    rw [List.reverse_cons, List.append_assoc]
    exact ih (⟨name, none⟩ :: hist)

theorem suffix_pass (names : List String) (hist : History) : hist <:+ hist.pass names := by
  induction names generalizing hist with
  | nil => exact List.suffix_rfl
  | cons name names ih => exact (List.suffix_cons ⟨name, none⟩ hist).trans (ih _)

end History

/-! ### Pieces -/

/-- A part of a template of text, names, definitions and conditions, with the code of its expressions. -/
inductive Piece where
  | text (s : String)
  | reference (name : String) (code : Code)
  | definition (name : String) (slot : Nat) (code : Code)
  | conditional (test : Code) (yes no : List Piece)

structure Replay where
  outcome : Except Halt Unit
  env : Env
  history : History

namespace Replay

def andThen (r : Replay) (f : Env → History → Replay) : Replay :=
  match r.outcome with
  | .ok () => f r.env r.history
  | .error _ => r

def after (x : Except Halt Value × Env) (hist : History) (f : Value → Env → Replay) : Replay :=
  match x with
  | (.ok v, e) => f v e
  | (.error r, e) => ⟨.error r, e, hist⟩

theorem suffix_andThen (r : Replay) {f : Env → History → Replay} (hf : ∀ e hist, hist <:+ (f e hist).history) :
    r.history <:+ (r.andThen f).history := by
  unfold andThen
  split
  · exact hf r.env r.history
  · exact List.suffix_rfl

theorem suffix_after (x : Except Halt Value × Env) {hist : History} {f : Value → Env → Replay}
    (hf : ∀ v e, hist <:+ (f v e).history) : hist <:+ (after x hist f).history := by
  unfold after
  split
  · exact hf _ _
  · exact List.suffix_rfl

theorem names_andThen (r : Replay) {names : List String} {f : Env → History → Replay}
    (hr : (r.history.map Event.name).Sublist names)
    (hf : ∀ e hist, hist = r.history → ((f e hist).history.map Event.name).Sublist names) :
    ((r.andThen f).history.map Event.name).Sublist names := by
  unfold andThen
  split
  · exact hf _ _ rfl
  · exact hr

theorem names_after (x : Except Halt Value × Env) {names : List String} {hist : History} {f : Value → Env → Replay}
    (hhist : (hist.map Event.name).Sublist names) (hf : ∀ v e, ((f v e).history.map Event.name).Sublist names) :
    ((after x hist f).history.map Event.name).Sublist names := by
  unfold after
  split
  · exact hf _ _
  · exact hhist

end Replay

namespace Piece

mutual

def step : Piece → Step
  | text s => .text s
  | reference _ code => .emit code
  | definition _ slot code => .setSlot slot code
  | conditional test yes no => .choose test (Body.ofSteps (steps yes)) (Body.ofSteps (steps no))

def steps : List Piece → List Step
  | [] => []
  | p :: ps => p.step :: steps ps

end

mutual

/-- The names that are defined in a piece, in the order of the text. -/
def defined : Piece → List String
  | text _ | reference _ _ => []
  | definition name _ _ => [name]
  | conditional _ yes no => definedAll yes ++ definedAll no

def definedAll : List Piece → List String
  | [] => []
  | p :: ps => p.defined ++ definedAll ps

end

section Replaying

variable (read : History → String → Option Value) (h : Host)

mutual

/-- Runs a piece, with names that read what a function makes of the definitions up to them. -/
def replay : Piece → Env → History → Replay
  | text s, e, hist => ⟨.ok (), e.write s, hist⟩
  | reference name _, e, hist => ⟨.ok (), e.write (History.text e.world (read hist name)), hist⟩
  | definition name slot code, e, hist =>
    .after (code.run h e) hist fun v e => ⟨.ok (), e.setSlot slot v, ⟨name, some v⟩ :: hist⟩
  | conditional test yes no, e, hist =>
    .after (test.run h e) hist fun v e =>
      if v.truth then
        (replayAll yes e hist).andThen fun e hist => ⟨.ok (), e, hist.pass (definedAll no)⟩
      else replayAll no e (hist.pass (definedAll yes))

def replayAll : List Piece → Env → History → Replay
  | [], e, hist => ⟨.ok (), e, hist⟩
  | p :: ps, e, hist => (p.replay e hist).andThen (replayAll ps)

end

mutual

theorem suffix_replay : (p : Piece) → (e : Env) → (hist : History) → hist <:+ (p.replay read h e hist).history
  | text _, _, _ => by
    unfold replay
    exact List.suffix_rfl
  | reference _ _, _, _ => by
    unfold replay
    exact List.suffix_rfl
  | definition _ _ _, _, hist => by
    rw [replay]
    exact Replay.suffix_after _ fun _ _ => List.suffix_cons _ hist
  | conditional _ yes no, _, hist => by
    rw [replay]
    refine Replay.suffix_after _ fun v e => ?_
    split
    · exact (suffix_replayAll yes e hist).trans
        (Replay.suffix_andThen _ fun _ => History.suffix_pass (definedAll no))
    · exact (History.suffix_pass (definedAll yes) hist).trans (suffix_replayAll no e _)

theorem suffix_replayAll : (ps : List Piece) → (e : Env) → (hist : History) →
    hist <:+ (replayAll read h ps e hist).history
  | [], _, _ => by
    unfold replayAll
    exact List.suffix_rfl
  | p :: ps, e, hist => by
    rw [replayAll]
    exact (suffix_replay p e hist).trans (Replay.suffix_andThen _ (suffix_replayAll ps))

end

mutual

/-- What a replay comes to or goes past are definitions of the text, each once and in their order. -/
theorem names_replay : (p : Piece) → (e : Env) → (hist : History) →
    ((p.replay read h e hist).history.map Event.name).Sublist (p.defined.reverse ++ hist.map Event.name)
  | text _, _, _ => by
    unfold replay defined
    exact .refl _
  | reference _ _, _, _ => by
    unfold replay defined
    exact .refl _
  | definition name _ _, _, hist => by
    rw [replay, defined]
    exact Replay.names_after _ (List.sublist_cons_self name _) fun _ _ => .refl _
  | conditional _ yes no, _, hist => by
    rw [replay, defined, List.reverse_append, List.append_assoc]
    have hyes (e : Env) := names_replayAll yes e hist
    refine Replay.names_after _ ?_ fun v e => ?_
    · exact (List.sublist_append_right _ _).trans (List.sublist_append_right _ _)
    · split
      · refine Replay.names_andThen _ ((hyes e).trans (List.sublist_append_right _ _)) fun _ hist' hhist => ?_
        rw [History.map_name_pass]
        exact (hhist ▸ hyes e).append_left _
      · exact History.map_name_pass (definedAll yes) hist ▸ names_replayAll no e _

theorem names_replayAll : (ps : List Piece) → (e : Env) → (hist : History) →
    ((replayAll read h ps e hist).history.map Event.name).Sublist ((definedAll ps).reverse ++ hist.map Event.name)
  | [], _, _ => by
    unfold replayAll definedAll
    exact .refl _
  | p :: ps, e, hist => by
    rw [replayAll, definedAll, List.reverse_append, List.append_assoc]
    have hp := names_replay p e hist
    refine Replay.names_andThen _ (hp.trans (List.sublist_append_right _ _)) fun e hist' hhist => ?_
    exact (names_replayAll ps e hist').trans ((hhist ▸ hp).append_left _)

end

end Replaying

/-- Where a text defines every name once, nothing that a run goes past follows what it has executed. -/
theorem settled_of_apart {cs : Bool} {ps : List Piece} (read : History → String → Option Value) (h : Host) (e : Env)
    (hapart : (definedAll ps).Pairwise fun a b => sameName cs b a = false) :
    (replayAll read h ps e []).history.Settled cs := by
  have hnames := names_replayAll read h ps e []
  rw [List.map_nil, List.append_nil] at hnames
  refine (List.pairwise_map.1 ((List.pairwise_reverse.2 hapart).sublist hnames)).imp fun hne hsame => ?_
  rw [hne] at hsame
  cases hsame

section Readers

variable {read read' : History → String → Option Value} {h : Host}

mutual

/-- A run is the same with names that read the same at every place it comes to. -/
theorem replay_congr : (p : Piece) → (e : Env) → (hist : History) →
    (∀ past, past <:+ (p.replay read h e hist).history → read' past = read past) →
    p.replay read' h e hist = p.replay read h e hist
  | text _, _, _, _ => by rw [replay, replay]
  | reference _ _, _, hist, hread => by
    rw [replay] at hread
    rw [replay, replay, hread hist List.suffix_rfl]
  | definition _ _ _, _, _, _ => by rw [replay, replay]
  | conditional test yes no, e, hist, hread => by
    rw [replay] at hread
    rw [replay, replay]
    unfold Replay.after at hread ⊢
    generalize test.run h e = x at hread ⊢
    obtain ⟨r, e⟩ := x
    cases r with
    | error r => rfl
    | ok v =>
      dsimp only at hread ⊢
      by_cases hv : v.truth = true
      · rw [if_pos hv] at hread ⊢
        have hyes := replayAll_congr yes e hist fun past hpast =>
          hread past (hpast.trans (Replay.suffix_andThen _ fun _ => History.suffix_pass (definedAll no)))
        rw [if_pos hv, hyes]
      · rw [if_neg hv] at hread ⊢
        rw [if_neg hv]
        exact replayAll_congr no e _ hread

theorem replayAll_congr : (ps : List Piece) → (e : Env) → (hist : History) →
    (∀ past, past <:+ (replayAll read h ps e hist).history → read' past = read past) →
    replayAll read' h ps e hist = replayAll read h ps e hist
  | [], _, _, _ => by rw [replayAll, replayAll]
  | p :: ps, e, hist, hread => by
    rw [replayAll] at hread
    have hp := replay_congr p e hist fun past hpast =>
      hread past (hpast.trans (Replay.suffix_andThen _ (suffix_replayAll read h ps)))
    rw [replayAll, replayAll, hp]
    unfold Replay.andThen at hread ⊢
    split at hread
    · exact replayAll_congr ps _ _ hread
    · rfl

end

end Readers

theorem replayAll_of_settled {cs : Bool} {h : Host} {ps : List Piece} {e : Env} {hist : History}
    (hsettled : (replayAll (History.lexical? cs) h ps e hist).history.Settled cs) :
    replayAll (History.executed? cs) h ps e hist = replayAll (History.lexical? cs) h ps e hist := by
  refine replayAll_congr ps e hist fun past hpast => ?_
  funext name
  exact (History.lexical?_of_settled (hsettled.sublist hpast.sublist) name).symm

end Piece

namespace Step

theorem runAll_ofSteps (h : Host) (ss : List Step) : runAll h (Body.ofSteps ss) = runAll h ss := by
  induction ss with
  | nil => rfl
  | cons s ss ih =>
    have hkept (hs : Body.ofSteps (s :: ss) = s :: Body.ofSteps ss) :
        runAll h (Body.ofSteps (s :: ss)) = runAll h (s :: ss) := by
      rw [hs, runAll, runAll, ih]
    cases s with
    | text t =>
      by_cases ht : t = ""
      · subst ht
        funext e
        rw [show Body.ofSteps (.text "" :: ss) = Body.ofSteps ss from rfl, ih, runAll, Flow.bind_apply]
        show runAll h ss e = runAll h ss (e.write "")
        rw [Env.write_empty]
      · exact hkept (List.filter_cons_of_pos (by simpa using ht))
    | _ => exact hkept rfl

end Step

namespace Scope

def define (s : Scope) (name : String) (kind : Kind) : Scope :=
  s.allocate.2.declare 0 name (.slot s.slots kind .definition)

/-- What a name is compiled to where nothing is bound but in the outermost frame, and the context has no
members. -/
def reading (s : Scope) (cs : Bool) (name : String) : Code :=
  match s.root.bindings.lookup cs name with
  | some (.slot n _ _) => .slot n
  | _ => .const (.text "")

end Scope

/-- Pieces that are compiled in a scope, and the scope they leave. Every definition has a slot of its own, and
binds its name in whatever is compiled next, taken branches or not. -/
inductive Compiled (h : Host) (cs : Bool) : Scope → List Piece → Scope → Prop
  | nil (s : Scope) : Compiled h cs s [] s
  | text {s s' : Scope} {ps : List Piece} (t : String) :
    Compiled h cs s ps s' → Compiled h cs s (.text t :: ps) s'
  | reference {s s' : Scope} {ps : List Piece} (name : String) :
    Compiled h cs s ps s' → Compiled h cs s (.reference name (s.reading cs name) :: ps) s'
  | definition {s s' : Scope} {ps : List Piece} {code : Code} (name : String) (kind : Kind) :
    Flow.Quiet (code.run h) → Compiled h cs (s.define name kind) ps s' →
    Compiled h cs s (.definition name s.slots code :: ps) s'
  | conditional {s s₁ s₂ s' : Scope} {test : Code} {yes no ps : List Piece} :
    Flow.Quiet (test.run h) → Compiled h cs s yes s₁ → Compiled h cs s₁ no s₂ → Compiled h cs s₂ ps s' →
    Compiled h cs s (.conditional test yes no :: ps) s'

/-- The slots hold what the last definitions of the names are worth, and the ones that are not given out yet are
empty. -/
structure History.Holds (s : Scope) (e : Env) (hist : History) : Prop where
  values : Table.Alike (fun b v => ∃ n kind, b = .slot n kind .definition ∧ n < s.slots ∧ e.slot n = v.getD .null)
    s.root.bindings hist.table
  empty : ∀ n, s.slots ≤ n → e.slot n = .null

namespace History.Holds

variable {s s' : Scope} {e e' : Env} {hist : History} {h : Host} {cs : Bool} {ps : List Piece}

theorem of_slots (hh : Holds s e hist) (hslots : e'.slots = e.slots) : Holds s e' hist := by
  have hslot (n : Nat) : e'.slot n = e.slot n := by
    unfold Env.slot
    rw [hslots]
  constructor
  · simpa only [hslot] using hh.values
  · simpa only [hslot] using hh.empty

theorem define (hh : Holds s e hist) (name : String) (kind : Kind) {v : Option Value}
    (hothers : ∀ n, n ≠ s.slots → e'.slot n = e.slot n) (hslot : e'.slot s.slots = v.getD .null) :
    Holds (s.define name kind) e' (⟨name, v⟩ :: hist) := by
  have hslots : (s.define name kind).slots = s.slots + 1 := rfl
  constructor
  · rw [hslots]
    refine Table.Alike.set ?_ name ⟨s.slots, kind, rfl, Nat.lt_succ_self _, hslot⟩
    refine hh.values.imp ?_
    rintro b v ⟨hname, n, kind, hb, hn, hv⟩
    exact ⟨hname, n, kind, hb, Nat.lt_succ_of_lt hn, (hothers n (Nat.ne_of_lt hn)).trans hv⟩
  · intro n hn
    rw [hslots] at hn
    rw [hothers n (by omega)]
    exact hh.empty n (by omega)

/-- Compiling binds the names that a run goes past to slots that stay empty. -/
theorem pass (hc : Compiled h cs s ps s') (hh : Holds s e hist) : Holds s' e (hist.pass (Piece.definedAll ps)) := by
  induction hc generalizing hist with
  | nil => exact hh
  | text t _ ih => exact ih hh
  | reference name _ ih => exact ih hh
  | definition name kind _ _ ih => exact ih (hh.define name kind (fun _ _ => rfl) (hh.empty _ (Nat.le_refl _)))
  | @conditional s s₁ s₂ s' test yes no ps _ _ _ _ ihyes ihno ihps =>
    have hpass : hist.pass (Piece.definedAll (.conditional test yes no :: ps)) =
        ((hist.pass (Piece.definedAll yes)).pass (Piece.definedAll no)).pass (Piece.definedAll ps) := by
      simp [History.pass, Piece.definedAll, Piece.defined, List.foldl_append]
    rw [hpass]
    exact ihps (ihno (ihyes hh))

theorem run_reading (hh : Holds s e hist) (h : Host) (cs : Bool) (name : String) :
    ∃ v, (s.reading cs name).run h e = (.ok v, e) ∧ ∀ w, v.display w = History.text w (hist.lexical? cs name) := by
  unfold Scope.reading History.lexical?
  obtain ⟨b, v, hb, hv, n, kind, rfl, -, hslot⟩ | ⟨hb, hv⟩ := rel_cases (hh.values.lookup cs name)
  · rw [hb, hv]
    refine ⟨e.slot n, rfl, fun w => ?_⟩
    rw [hslot]
    cases v <;> rfl
  · rw [hb, hv]
    exact ⟨.text "", rfl, fun _ => rfl⟩

theorem run_quiet {c : Code} (hc : Flow.Quiet (c.run h)) (hh : Holds s e hist) :
    (∃ v e₁, c.run h e = (.ok v, e₁) ∧ Holds s e₁ hist) ∨ ∃ r e₁, c.run h e = (.error r, e₁) := by
  obtain ⟨w, hw⟩ := hc e
  cases hrun : c.run h e with
  | mk r e₁ =>
    rw [hrun] at hw
    have hslots : e₁.slots = e.slots := by rw [show e₁ = _ from hw]
    cases r with
    | ok v => exact .inl ⟨v, e₁, rfl, hh.of_slots hslots⟩
    | error r => exact .inr ⟨r, e₁, rfl⟩

end History.Holds

/-- The steps of pieces do what a replay says, and something holds where it ends well. -/
structure Piece.Plays (h : Host) (cs : Bool) (ps : List Piece) (e : Env) (hist : History)
    (Q : Env → History → Prop) : Prop where
  run : Step.runAll h (steps ps) e =
    ((replayAll (History.lexical? cs) h ps e hist).outcome, (replayAll (History.lexical? cs) h ps e hist).env)
  holds : (replayAll (History.lexical? cs) h ps e hist).outcome = .ok () →
    Q (replayAll (History.lexical? cs) h ps e hist).env (replayAll (History.lexical? cs) h ps e hist).history

variable {h : Host} {cs : Bool} {s s' : Scope} {e : Env} {hist : History}

theorem Piece.Plays.cons {p : Piece} {ps : List Piece} {Q : Env → History → Prop} {r : Replay}
    (hr : p.replay (History.lexical? cs) h e hist = r) (hp : p.step.run h e = (r.outcome, r.env))
    (hps : r.outcome = .ok () → Plays h cs ps r.env r.history Q) : Plays h cs (p :: ps) e hist Q := by
  have hrun : Step.runAll h (steps (p :: ps)) e = (p.step.run h >>= fun _ => Step.runAll h (steps ps)) e := by
    rw [steps, Step.runAll]
  rw [Flow.bind_apply, hp] at hrun
  obtain ⟨outcome, env, history⟩ := r
  cases outcome with
  | error r =>
    constructor
    · rw [replayAll, hr]
      exact hrun
    · rw [replayAll, hr]
      rintro ⟨⟩
  | ok _ =>
    obtain ⟨hrun', hholds⟩ := hps rfl
    constructor
    · rw [replayAll, hr]
      exact hrun.trans hrun'
    · rw [replayAll, hr]
      exact hholds

theorem Piece.Plays.halted {p : Piece} {ps : List Piece} {Q : Env → History → Prop} {r : Halt} {e₁ : Env}
    {hist₁ : History} (hr : p.replay (History.lexical? cs) h e hist = ⟨.error r, e₁, hist₁⟩)
    (hp : p.step.run h e = (.error r, e₁)) : Plays h cs (p :: ps) e hist Q :=
  .cons hr hp fun hok => by cases hok

/-- A run of what pieces are compiled to is their replay, in which a name reads the last definition before it. -/
theorem Compiled.plays {ps : List Piece} (hc : Compiled h cs s ps s') (hh : hist.Holds s e) :
    Piece.Plays h cs ps e hist (History.Holds s') := by
  induction hc generalizing e hist with
  | nil => exact ⟨rfl, fun _ => hh⟩
  | text t _ ih => exact .cons (by rw [Piece.replay]) rfl fun _ => ih (hh.of_slots (e.slots_write t))
  | reference name _ ih =>
    obtain ⟨v, hv, hdisplay⟩ := hh.run_reading h cs name
    refine .cons (r := ⟨.ok (), e.write (v.display e.world), hist⟩) ?_ ?_ fun _ => ih (hh.of_slots (e.slots_write _))
    · rw [Piece.replay, hdisplay]
    · rw [Piece.step, Step.run, Flow.bind_apply, hv]
      rfl
  | @definition s s' ps code name kind hquiet _ ih =>
    obtain ⟨v, e₁, hrun, hh₁⟩ | ⟨r, e₁, hrun⟩ := hh.run_quiet hquiet
    · refine .cons (r := ⟨.ok (), e₁.setSlot s.slots v, ⟨name, some v⟩ :: hist⟩) ?_ ?_ fun _ => ih ?_
      · rw [Piece.replay, hrun]
        rfl
      · rw [Piece.step, Step.run, Flow.bind_apply, hrun]
        rfl
      · exact hh₁.define name kind (fun n hn => e₁.slot_setSlot_ne hn.symm v) (e₁.slot_setSlot _ v)
    · have hreplay : (Piece.definition name s.slots code).replay (History.lexical? cs) h e hist =
          ⟨.error r, e₁, hist⟩ := by
        rw [Piece.replay, hrun]
        rfl
      exact .halted hreplay (by rw [Piece.step, Step.run, Flow.bind_apply, hrun])
  | @conditional s s₁ s₂ s' test yes no ps hquiet hyes hno _ ihyes ihno ihps =>
    obtain ⟨v, e₁, hrun, hh₁⟩ | ⟨r, e₁, hrun⟩ := hh.run_quiet hquiet
    · have hstep : (Piece.conditional test yes no).step.run h e =
          if v.truth then Step.runAll h (Piece.steps yes) e₁ else Step.runAll h (Piece.steps no) e₁ := by
        rw [Piece.step, Step.run, Flow.bind_apply, hrun, Step.runAll_ofSteps, Step.runAll_ofSteps]
        dsimp only
        split <;> rfl
      -- What is not run is compiled nevertheless: its names are bound anew after the condition, or for the branch
      -- that is run in its place.
      by_cases hv : v.truth = true
      · obtain ⟨hplay, hholds⟩ := ihyes hh₁
        rw [if_pos hv, hplay] at hstep
        have hreplay : (Piece.conditional test yes no).replay (History.lexical? cs) h e hist =
            (Piece.replayAll (History.lexical? cs) h yes e₁ hist).andThen fun e hist =>
              ⟨.ok (), e, hist.pass (Piece.definedAll no)⟩ := by
          rw [Piece.replay, hrun]
          exact if_pos hv
        generalize Piece.replayAll (History.lexical? cs) h yes e₁ hist = r at hstep hholds hreplay
        obtain ⟨outcome, env, history⟩ := r
        cases outcome with
        | error r => exact .halted hreplay hstep
        | ok _ => exact .cons hreplay hstep fun _ => ihps ((hholds rfl).pass hno)
      · obtain ⟨hplay, hholds⟩ := ihno (hh₁.pass hyes)
        rw [if_neg hv, hplay] at hstep
        refine .cons ?_ hstep fun houtcome => ihps (hholds houtcome)
        rw [Piece.replay, hrun]
        exact if_neg hv
    · have hreplay : (Piece.conditional test yes no).replay (History.lexical? cs) h e hist = ⟨.error r, e₁, hist⟩ := by
        rw [Piece.replay, hrun]
        rfl
      exact .halted hreplay (by rw [Piece.step, Step.run, Flow.bind_apply, hrun])

namespace Compiled

theorem append {ps qs : List Piece} {s'' : Scope} (hps : Compiled h cs s ps s') (hqs : Compiled h cs s' qs s'') :
    Compiled h cs s (ps ++ qs) s'' := by
  induction hps with
  | nil => exact hqs
  | text t _ ih => exact .text t (ih hqs)
  | reference name _ ih => exact .reference name (ih hqs)
  | definition name kind hquiet _ ih => exact .definition name kind hquiet (ih hqs)
  | conditional hquiet hyes hno _ _ _ ih => exact .conditional hquiet hyes hno (ih hqs)

end Compiled

end Stencil
