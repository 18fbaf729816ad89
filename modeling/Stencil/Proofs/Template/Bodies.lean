import Stencil.Directive.Standard
import Stencil.Proofs.Expr.Arguments
import Stencil.Proofs.Expr.Grammar
import Stencil.Proofs.Template.Sections
import Stencil.Proofs.Token.Scans
/-!
Which definitions have a body. The tag of a definition is scanned before its arguments are read: the scan looks for an
equals sign anywhere in them, the reader for the token after the name. They agree on every head that can be read.
-/
set_option autoImplicit false

namespace Stencil

namespace Token

variable {t : Token} {w : List Char}

def isWord : Token → Bool
  | .name _ | .fixed _ => true
  | _ => false

theorem real_isWord {ds : List Char} {f : Float → Float} {s : RealSuffix}
    (h : (do let x ← Decimal.readReal? ds; return real (f x) s) = some t) : t.isWord = false := by
  obtain ⟨x, -, h⟩ := Option.bind_eq_some_iff.1 h
  cases h
  rfl

theorem decimal?_isWord (h : decimal? w = some t) : t.isWord = false := by
  unfold decimal? at h
  dsimp only at h
  split at h
  · split at h
    · exact real_isWord h
    · obtain ⟨n, -, h⟩ := Option.bind_eq_some_iff.1 h
      obtain ⟨m, -, h⟩ := Option.bind_eq_some_iff.1 h
      obtain ⟨k, -, h⟩ := Option.bind_eq_some_iff.1 h
      cases h
      rfl
  · split at h
    · exact real_isWord (f := id) h
    · exact real_isWord (f := id) h
    · split at h
      · split at h
        · exact real_isWord (f := id) h
        · cases h
      · obtain ⟨n, -, h⟩ := Option.bind_eq_some_iff.1 h
        obtain ⟨m, -, h⟩ := Option.bind_eq_some_iff.1 h
        obtain ⟨s, -, h⟩ := Option.bind_eq_some_iff.1 h
        cases h
        rfl

theorem Rule.word_cases {rule : Rule} (h : rule.token? w = some t) (hword : t.isWord = true) :
    (∃ s, rule = .fixed s ∧ t = .fixed s) ∨ rule = .name := by
  cases rule with
  | fixed s => exact .inl ⟨s, rfl, (Option.some.inj h).symm⟩
  | name => exact .inr rfl
  | context =>
    simp only [token?] at h
    split at h <;> cases h
    cases hword
  | decimal => exact absurd hword (by simp [decimal?_isWord h])
  | hexadecimal =>
    obtain ⟨n, -, h⟩ := Option.bind_eq_some_iff.1 h
    obtain ⟨s, -, h⟩ := Option.bind_eq_some_iff.1 h
    cases h
    cases hword
  | text =>
    obtain ⟨s, -, rfl⟩ := Option.map_eq_some_iff.1 h
    cases hword
  | pattern =>
    cases h
    cases hword

def lacksEquals : Token → Bool
  | .name _ => true
  | .fixed s => !s.text.toList.contains '='
  | _ => false

theorem isWord_of_lacksEquals (h : t.lacksEquals = true) : t.isWord = true := by
  cases t <;> first | rfl | cases h

theorem not_mem_name (h : w ∈ Rule.name.language) : '=' ∉ w := by
  obtain ⟨c, hc, u, hu, rfl⟩ := mem_chars_mul.1 h
  intro hmem
  rcases List.mem_cons.1 hmem with rfl | hmem
  · exact absurd hc (by decide)
  · exact absurd (mem_star_chars.1 hu _ hmem) (by decide)

variable {pos : Nat} {cs : List Char} {ts : List Placed}

theorem Scans.equals (h : Scans pos cs ts) :
    ((∀ t ∈ ts, t.token.lacksEquals = true) → '=' ∉ cs) ∧ ∀ t ∈ ts, t.token = .fixed .eq → '=' ∈ cs := by
  induction h with
  | nil => simp
  | @layout pos c cs ts hc h ih =>
    have hne : '=' ≠ c := fun heq => by subst heq; exact absurd hc (by decide)
    exact ⟨fun hts hmem => (List.mem_cons.1 hmem).elim hne (ih.1 hts),
      fun t ht heq => List.mem_cons_of_mem c (ih.2 t ht heq)⟩
  | @token pos c cs spelling rest t ts hc hcs hr h ih =>
    have hlexes := lexes_read (show cs = spelling ++ (read c cs).2 by rw [hr, ← hcs])
    rw [hr] at hlexes
    obtain ⟨-, rule, hlong, htoken⟩ := hlexes.exists_rule
    have hsplit : c :: cs = (c :: spelling) ++ rest := by rw [hcs, List.cons_append]
    rw [hsplit]
    constructor
    · intro hts hmem
      obtain ⟨hfirst, hrest⟩ := List.forall_mem_cons.1 hts
      rcases List.mem_append.1 hmem with hmem | hmem
      · rcases Rule.word_cases htoken (isWord_of_lacksEquals hfirst) with ⟨s, rfl, rfl⟩ | rfl
        · have hs : c :: spelling = s.text.toList := hlong.spelled
          simp [lacksEquals, ← hs, hmem] at hfirst
        · exact not_mem_name hlong.spelled hmem
      · exact ih.1 hrest hmem
    · intro t' ht' heq
      rcases List.mem_cons.1 ht' with rfl | ht'
      · obtain rfl : t = .fixed .eq := heq
        rcases Rule.word_cases htoken rfl with ⟨s, rfl, hs⟩ | rfl
        · cases hs
          exact List.mem_append_left rest (show '=' ∈ c :: spelling by rw [show c :: spelling = ['='] from hlong.spelled]; simp)
        · cases htoken
      · exact List.mem_append_right _ (ih.2 t' ht' heq)

end Token

namespace Arguments

open Expr.Level (isNext_cases isNext_fixed take_eq_ok_iff)

variable {stop : Nat} {ts rest : List Placed}

theorem takeName_eq_ok {name : Expr.Segment} (h : takeName stop ts = .ok (name, rest)) :
    ts = ⟨.name name.name, name.span⟩ :: rest := by
  unfold takeName bindingName at h
  split at h <;> cases h
  rfl

theorem takeParameters_lacksEquals {ps : List Expr.Segment} (h : takeParameters stop ts = .ok (ps, rest)) :
    ∃ front, ts = front ++ rest ∧ ∀ t ∈ front, t.token.lacksEquals = true := by
  have hparen : (Token.fixed .rParen).lacksEquals = true := by decide
  have hcomma : (Token.fixed .comma).lacksEquals = true := by decide
  induction hn : ts.length using Nat.strongRecOn generalizing ts ps with
  | ind n ih =>
    subst hn
    rw [takeParameters_eq, parametersStep] at h
    split at h
    · obtain ⟨⟨span, rest₁⟩, hclose, hdone⟩ := exists_of_bind_ok h
      cases hdone
      exact ⟨[⟨.fixed .rParen, span⟩], take_eq_ok_iff.1 hclose, List.forall_mem_singleton.2 hparen⟩
    · obtain ⟨⟨name, rest₁⟩, hname, hmore⟩ := exists_of_bind_ok h
      obtain rfl := takeName_eq_ok hname
      dsimp only at hmore
      split at hmore
      · obtain ⟨⟨span, rest₂⟩, hclose, hdone⟩ := exists_of_bind_ok hmore
        cases hdone
        obtain rfl := take_eq_ok_iff.1 hclose
        exact ⟨[⟨.name name.name, name.span⟩, ⟨.fixed .rParen, span⟩], rfl,
          List.forall_mem_cons.2 ⟨rfl, List.forall_mem_singleton.2 hparen⟩⟩
      · obtain ⟨⟨span, rest₂⟩, htake, hmore⟩ := exists_of_bind_ok hmore
        obtain ⟨⟨more, rest₃⟩, hparameters, hdone⟩ := exists_of_bind_ok hmore
        cases hdone
        obtain rfl := take_eq_ok_iff.1 htake
        obtain ⟨front, rfl, hfront⟩ := ih rest₂.length (by simp only [List.length_cons]; omega) hparameters rfl
        refine ⟨⟨.name name.name, name.span⟩ :: ⟨.fixed .comma, span⟩ :: front, rfl, ?_⟩
        exact List.forall_mem_cons.2 ⟨rfl, List.forall_mem_cons.2 ⟨hcomma, hfront⟩⟩

theorem takeHead_equals {head : DefineHead} (h : takeHead stop ts = .ok (head, rest)) :
    (∀ lenient x, head.form = .value lenient x → ∃ t ∈ ts, t.token = .fixed .eq) ∧
    ∀ params, head.form = .body params → ∃ front, ts = front ++ rest ∧ ∀ t ∈ front, t.token.lacksEquals = true := by
  rw [takeHead_eq] at h
  obtain ⟨⟨name, rest₁⟩, hname, hmore⟩ := exists_of_bind_ok h
  obtain rfl := takeName_eq_ok hname
  dsimp only at hmore
  rcases isNext_cases .eq rest₁ with ⟨span, rest₂, rfl⟩ | heq
  · refine ⟨fun _ _ _ => ⟨⟨.fixed .eq, span⟩, by simp, rfl⟩, fun params hform => ?_⟩
    rw [if_pos (isNext_fixed _ _ _)] at hmore
    split at hmore
    all_goals
      obtain ⟨⟨value, rest₃⟩, -, hdone⟩ := exists_of_bind_ok hmore
      cases hdone
      cases hform
  · have hopen : (Token.fixed .lParen).lacksEquals = true := by decide
    rw [heq, if_neg (by simp)] at hmore
    rcases isNext_cases .lParen rest₁ with ⟨span, rest₂, rfl⟩ | hparen
    · rw [if_pos (isNext_fixed _ _ _)] at hmore
      obtain ⟨⟨params, rest₃⟩, hparameters, hdone⟩ := exists_of_bind_ok hmore
      cases hdone
      obtain ⟨front, hrest, hfront⟩ := takeParameters_lacksEquals hparameters
      rw [List.tail_cons] at hrest
      refine ⟨fun _ _ hform => (by cases hform), fun _ _ => ⟨_ :: _ :: front, by rw [hrest]; rfl, ?_⟩⟩
      exact List.forall_mem_cons.2 ⟨rfl, List.forall_mem_cons.2 ⟨hopen, hfront⟩⟩
    · rw [hparen, if_neg (by simp)] at hmore
      cases hmore
      exact ⟨fun _ _ hform => (by cases hform), fun _ _ => ⟨[_], rfl, List.forall_mem_singleton.2 rfl⟩⟩

end Arguments

theorem FoundBody.find_nested {reg : Directives} {tag : Tag} {d : Directive (Invocation → Compile Step)}
    (hd : reg.get? tag.name = some d) (hbody : d.body tag.args = .nested) {cs : List Char}
    {found : Option (FoundBody cs.length)} (h : find reg tag cs = .ok found) :
    ∃ body, found = some body ∧ body.sections ≠ [] := by
  simp only [find, hd, hbody] at h
  obtain ⟨body, hread, rfl⟩ := exists_of_map_ok h
  refine ⟨body, rfl, fun hnil => ?_⟩
  have hchain : Chain reg tag d.words none tag.span.stop cs body.extent.sections body.extent.stop body.rest :=
    chain_of_readSections (by rw [hread]; rfl)
  rw [FoundBody.extent, hnil] at hchain
  cases hchain

/-- The scan of a definition and its reader agree on whether a body follows. On every head that can be read the scan
takes a value to stand alone, and looks for a nested body after anything else; a body that it finds has sections. -/
theorem define_body_follows_head {args : String} {base : Nat} {head : DefineHead}
    (h : Arguments.readDefineHead args base = .ok head) :
    (∀ lenient x, head.form = .value lenient x → Directive.define.body args = .none ∧
      ∀ (reg : Directives) (tag : Tag) cs, reg.get? tag.name = some Directive.define → tag.args = args →
        FoundBody.find reg tag cs = .ok none) ∧
    ∀ params, head.form = .body params → Directive.define.body args = .nested ∧
      ∀ (reg : Directives) (tag : Tag) cs found, reg.get? tag.name = some Directive.define → tag.args = args →
        FoundBody.find reg tag cs = .ok found → ∃ body, found = some body ∧ body.sections ≠ [] := by
  obtain ⟨ts, hts, hread⟩ := Expr.readWhole_eq_ok_iff.1 h
  obtain ⟨hlacks, hsign⟩ := (Token.ofText_iff.1 hts).equals
  obtain ⟨hvalue, hbody⟩ := Arguments.takeHead_equals hread
  constructor
  · intro lenient x hform
    obtain ⟨t, ht, heq⟩ := hvalue lenient x hform
    have hrule : Directive.define.body args = .none := if_pos (by simpa using hsign t ht heq)
    refine ⟨hrule, ?_⟩
    rintro reg tag cs hd rfl
    simp [FoundBody.find, hd, hrule]
  · intro params hform
    obtain ⟨front, rfl, hfront⟩ := hbody params hform
    rw [List.append_nil] at hlacks
    have hrule : Directive.define.body args = .nested := if_neg (by simpa using hlacks hfront)
    refine ⟨hrule, ?_⟩
    rintro reg tag cs found hd rfl hfind
    exact FoundBody.find_nested hd hrule hfind

theorem define_body_follows_head_fragment :
    let head : DefineHead := ⟨"greet", ⟨0, 5⟩, .body (some [⟨"name", ⟨6, 10⟩⟩, ⟨"title", ⟨12, 17⟩⟩])⟩
    Arguments.readDefineHead "greet(name, title)" 0 = .ok head ∧
      Directive.define.body "greet(name, title)" = .nested := by
  intro head
  have h : Arguments.readDefineHead "greet(name, title)" 0 = .ok head := by with_unfolding_all rfl
  exact ⟨h, ((define_body_follows_head h).2 _ rfl).1⟩

end Stencil
