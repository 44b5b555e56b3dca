import Contracts.Proofs.Grammar.Registered
import Contracts.Proofs.Parsing.StatementComplete

/-! Units that are written are read again, up to spans. A member is told by its first
token, a method from a field by what stands behind its name, and the cases of a
specification end before the first word that is neither a clause keyword nor `also`. -/

namespace Contracts.Parser

variable {on : Bool} {n : Nat} {k : List TokenKind}

/-! ### Lists of items -/

theorem commas_separated {α : Type} {D : List TokenKind → α → Prop} {f : α → List TokenKind}
    {as : List α} (h : ∀ a ∈ as, D (f a) a) : Commas D (separated (.symbol .comma) f as) as := by
  induction as with
  | nil => exact .none
  | cons a as ih =>
    rw [List.forall_mem_cons] at h
    cases as with
    | nil => exact .one h.1
    | cons b as => exact .more h.1 (ih h.2)

theorem complete_nameOr (fault : TokenKind → SyntaxFault) :
    Complete on n (fun _ => True) (fun w a => w = [.identifier a.text]) Name.unspanned
      (nameOr fault) := by
  rintro w k a - rfl -
  rw [← bind_pure (nameOr fault)]
  exact .nameOr fun _ => .pure rfl

theorem complete_param :
    Complete on n (fun _ => True) (fun w p => w = p.words) Param.unspanned param := by
  rintro w k p - rfl -
  exact .typeName fun _ => .expectName fun _ => .pure rfl

/-! ### Clauses of a class -/

theorem parses_frame {f : Option Frame} (h : ∀ g ∈ f, g.Nonempty) :
    Parses on frame ((f.map (·.words)).getD []) (.symbol .semicolon :: k)
      (fun f' => f'.map Frame.unspanned = f.map Frame.unspanned) := by
  rcases f with _ | f
  · exact .kind (.pure rfl)
  · cases f with
    | everything _ =>
      refine .kind_cons ?_
      rw [if_pos rfl]
      refine .advance (by simp) fun _ => .kind_cons ?_
      rw [if_pos rfl]
      exact .advance (by simp) fun _ => .pure rfl
    | methods names =>
      have hne : names ≠ [] := h _ rfl
      refine .kind_cons ?_
      rw [if_pos rfl]
      refine .advance (by simp) fun _ => .kind ?_
      have hfirst : firstKind (separated (.symbol .comma) (fun n => [.identifier n.text]) names ++
          .symbol .semicolon :: k) ≠ .specWord everythingWord := by
        obtain ⟨a, as, rfl⟩ := List.exists_cons_of_ne_nil hne
        cases as <;> simp [separated]
      rw [if_neg hfirst]
      refine (parses_commaSeparated (complete_nameOr .expectedFrameMethod) trivial
        (commas_separated fun _ _ => rfl) hne (Nat.lt_succ_self _) trivial (by simp)).bind_last
        fun names' hnames' => .pure ?_
      rw [Option.map_some, Option.map_some, Frame.unspanned, Frame.unspanned, hnames']

/-- Neither a frame nor the terminator continues an expression. -/
theorem not_continues_frame (f : Option Frame) :
    ¬(firstKind ((f.map (·.words)).getD [] ++ .symbol .semicolon :: k)).Continues := by
  rcases f with _ | f
  · exact not_continues_symbol (by decide) (by decide) (by decide)
  · cases f <;> exact not_continues_identifier

section

variable {registry : Registry} {w : List TokenKind} {e : Expr} {f : Option Frame} {d : Descriptor}
  (he : Derives registry false .implication w e)
  (hf : ∀ g ∈ f, d.kind = .typeClause .constraint ∧ g.Nonempty)

include he hf

theorem parses_typeClauseBody :
    Parses false (typeClauseBody registry d) (w ++ (f.map (·.words)).getD [])
      (.symbol .semicolon :: k) (fun body => body.1.unspanned = e.unspanned ∧
        body.2.map Frame.unspanned = f.map Frame.unspanned) := by
  refine (parses_derived he (not_continues_frame f)).bind fun e' he' => ?_
  split
  · exact (parses_frame fun g hg => (hf g hg).2).bind_last fun f' hf' => .pure ⟨he', hf'⟩
  · next hkind =>
    have hnone : f = none := by
      rw [Option.eq_none_iff_forall_ne_some]
      exact fun g hg => hkind (hf g hg).1
    rw [hnone]
    exact .pure ⟨he', rfl⟩

/-- In the body every word is a name, under every registry, and so are the words of a frame. -/
theorem parses_typeClause_derived {word : String} :
    Parses on (typeClause registry d)
      (.identifier word :: (w ++ (f.map (·.words)).getD [] ++ [.symbol .semicolon])) k
      (·.unspanned = ⟨d, e.unspanned, f.map (·.unspanned), .origin⟩) := by
  refine .advance (by simp) fun _ => ?_
  refine .outcome (.withReserving false (parses_typeClauseBody he hf)) fun body hbody => ?_
  refine .accept_true (.previousEnd fun _ => .pure ?_)
  rw [TypeClause.unspanned, hbody.1, hbody.2]

end

theorem nonempty_of_writable {f : Frame} (h : f.Writable) : f.Nonempty := by
  cases f with
  | everything _ => trivial
  | methods names => exact h.1

theorem parses_typeClause {c : TypeClause} (h : c.Writable) :
    Parses true (typeClause .standard c.descriptor) c.words k (·.unspanned = c.unspanned) :=
  parses_typeClause_derived (c.expr.derives_words _ h.expr) fun f hf =>
    ⟨(h.frame f hf).2, nonempty_of_writable (h.frame f hf).1⟩

/-! ### Specification cases -/

theorem parses_specClauses {cs : List SpecClause}
    (h : ∀ c ∈ cs, c.Writable ∧ ∃ keyword, c.descriptor.kind = .methodSpec keyword)
    (hk : (firstKind k).keyword? .standard true = none) :
    Parses true (specClauses .standard) (cs.flatMap (·.words)) k
      (fun cs' => cs'.map SpecClause.unspanned = cs.map SpecClause.unspanned) := by
  induction cs with
  | nil =>
    refine .recur fun again _ => .clauseKeyword? ?_
    rw [List.flatMap_nil, List.nil_append, hk]
    exact .pure rfl
  | cons c cs ih =>
    rw [List.forall_mem_cons] at h
    obtain ⟨⟨hc, keyword, hkind⟩, hcs⟩ := h
    refine .recur fun again hagain => .clauseKeyword?_cons ?_
    have hspec : (some c.descriptor).filter (·.kind.isMethodSpec) = some c.descriptor := by
      rw [Option.filter_some, hkind]
      rfl
    rw [keyword?_standard hc.descriptor, hspec]
    refine (parses_specClause hc).bind fun c' hc' => ?_
    have hlt : (cs.flatMap (·.words) ++ k).length < ((c :: cs).flatMap (·.words) ++ k).length := by
      rw [List.flatMap_cons, SpecClause.words]
      simp only [List.length_append, List.length_cons]
      omega
    refine (hagain () _ k _ hlt (ih hcs)).bind_last fun cs' hcs' => .pure ?_
    rw [List.map_cons, List.map_cons, hc', hcs']

theorem parses_specCase {c : SpecCase} (h : c.Writable)
    (hk : (firstKind k).keyword? .standard true = none) :
    Parses true (specCase .standard) c.words k (·.unspanned = c.unspanned) := by
  refine .span fun _ => (parses_specClauses h.clauses hk).bind_last fun cs' hcs' => ?_
  have hne : cs'.isEmpty = false := by
    have := congrArg List.length hcs'
    rw [List.length_map, List.length_map] at this
    have := List.length_pos_iff.2 h.nonempty
    rw [List.isEmpty_eq_false_iff]
    exact List.ne_nil_of_length_pos (by omega)
  rw [hne]
  refine .previousEnd fun _ => .pure ?_
  rw [SpecCase.unspanned, SpecCase.unspanned, hcs']

/-- Specification cases end before a word that is neither a clause keyword nor `also`. -/
theorem parses_specCases {cases : List SpecCase} (hne : cases ≠ []) (h : ∀ c ∈ cases, c.Writable)
    (hk : (firstKind k).keyword? .standard true = none)
    (halso : firstKind k ≠ .identifier alsoWord) :
    Parses true (specCases .standard) (separated (.identifier alsoWord) (·.words) cases) k
      (fun cases' => cases'.map SpecCase.unspanned = cases.map SpecCase.unspanned) := by
  induction cases with
  | nil => exact absurd rfl hne
  | cons c cases ih =>
    rw [List.forall_mem_cons] at h
    refine .recur fun again hagain => ?_
    cases cases with
    | nil =>
      refine (parses_specCase h.1 hk).bind_last fun c' hc' => .kind ?_
      rw [List.nil_append, if_neg halso]
      exact .pure (by rw [List.map_singleton, List.map_singleton, hc'])
    | cons d cases =>
      have hfree : (TokenKind.identifier alsoWord).keyword? .standard true = none := by decide
      refine Parses.bind (parses_specCase h.1 ?_) fun c' hc' => .kind_cons ?_
      · exact hfree
      rw [if_pos rfl]
      refine .advance (by simp) fun _ => ?_
      refine (hagain () _ k _ ?_ (ih (List.cons_ne_nil _ _) h.2)).bind_last
        fun cases' hcases' => .pure ?_
      · rw [separated]
        simp only [List.length_append, List.length_cons]
        omega
      · rw [List.map_cons, List.map_cons, hc', hcases']

/-! ### Members -/

theorem parses_methodBehind {m : Method} (h : m.Writable) {type name : Name} {cases : List SpecCase}
    (htype : type.unspanned = m.returnType.unspanned) (hname : name.unspanned = m.name.unspanned)
    (hcases : cases.map SpecCase.unspanned = m.cases.map SpecCase.unspanned) :
    Parses true (methodBehind .standard cases type name)
      (parens (separated (.symbol .comma) (·.words) m.params) ++ m.body.words) k
      (·.unspanned = m.unspanned) := by
  have params : Commas (fun w p => w = Param.words p)
      (separated (.symbol .comma) (·.words) m.params) m.params :=
    commas_separated fun _ _ => rfl
  have hparams : Parses true (parenthesized param)
      (parens (separated (.symbol .comma) (·.words) m.params)) (m.body.words ++ k)
      (fun ps => ps.map Param.unspanned = m.params.map Param.unspanned) :=
    parses_parenthesized complete_param trivial trivial
      (fun w p hw => by rw [hw]; exact ⟨_, _, rfl, by simp⟩) params (Nat.lt_succ_self _)
  refine Parses.bind hparams fun params' hparams' => ?_
  refine (parses_block h.body).bind_last fun body' hbody' => .previousEnd fun _ => .pure ?_
  rw [Method.unspanned, Method.unspanned, htype, hname, hcases, hparams', hbody']

theorem parses_fieldBehind {f : Field} (h : InitWritable f.init) {type name : Name}
    (htype : type.unspanned = f.type.unspanned) (hname : name.unspanned = f.name.unspanned) :
    Parses true (fieldBehind .standard type name) (initWords f.init ++ [.symbol .semicolon]) k
      (·.unspanned = Field.unspanned { f with ghost := none }) := by
  refine (parses_initialiser h).bind fun init' hinit' => ?_
  refine .expectSymbol fun _ => .previousEnd fun _ => .pure ?_
  rw [Field.unspanned, Field.unspanned, htype, hname, hinit']

/-- A member that starts with no clause keyword. -/
theorem parses_member_of_plain {type : String} {w : List TokenKind} {Q : Member → Prop}
    (hfree : IsFreeName type) (halso : type ≠ alsoWord)
    (h : Parses true (plainMember .standard) (.identifier type :: w) k Q) :
    Parses true (member .standard) (.identifier type :: w) k Q := by
  refine .clauseKeyword?_cons ?_
  rw [keyword?_isFreeName hfree]
  refine .reserving (.kind_cons ?_)
  have hplain : ¬(true = true ∧ TokenKind.identifier type = .identifier alsoWord) := by
    rintro ⟨-, heq⟩
    exact halso (TokenKind.identifier.inj heq)
  rw [if_neg hplain]
  exact h

/-- What stands between the name of a field and its terminator opens no parameter list. -/
theorem firstKind_initWords (init : Option Expr) (k : List TokenKind) :
    firstKind (initWords init ++ [.symbol .semicolon] ++ k) ≠ .symbol .leftParen := by
  cases init <;> simp [initWords]

theorem parses_field {f : Field} (h : f.Writable) :
    Parses true (member .standard) f.words k (·.unspanned = (Member.field f).unspanned) := by
  obtain ⟨type, name, init, ghost, span⟩ := f
  cases ghost with
  | none =>
    apply parses_member_of_plain h.type h.also
    refine .typeName fun _ => .expectName fun _ => .kind ?_
    rw [if_neg (firstKind_initWords init k)]
    refine (parses_fieldBehind (f := ⟨type, name, init, none, span⟩) h.init (by rfl) (by rfl)).bind_last
      fun f' hf' => .pure ?_
    rw [Member.unspanned, Member.unspanned, hf']
  | some d =>
    obtain rfl := h.ghost d rfl
    have hd : (Descriptor.ofKind .declaration).Standard := rfl
    refine .clauseKeyword?_cons ?_
    rw [keyword?_standard hd]
    have hghost : Parses true (ghostField .standard (.ofKind .declaration))
        (Field.words ⟨type, name, init, some (.ofKind .declaration), span⟩) k
        (·.unspanned = Field.unspanned ⟨type, name, init, some (.ofKind .declaration), span⟩) := by
      refine .advance (by simp) fun _ => .typeName fun _ => .expectName fun _ => ?_
      refine (parses_fieldBehind (f := ⟨type, name, init, none, span⟩) h.init (by rfl) (by rfl)).bind_last
        fun f' hf' => .pure ?_
      obtain ⟨type', name', init', ghost', span'⟩ := f'
      simp only [Field.unspanned, Field.mk.injEq, and_true] at hf' ⊢
      exact ⟨hf'.1, hf'.2.1, hf'.2.2.1⟩
    refine hghost.bind_last fun f' hf' => .pure ?_
    rw [Member.unspanned, Member.unspanned, hf']

theorem parses_specifiedMethod {m : Method} (h : m.Writable) (hne : m.cases ≠ []) :
    Parses true (specifiedMethod .standard) m.words k (·.unspanned = m.unspanned) := by
  have halso : TokenKind.identifier m.returnType.text ≠ .identifier alsoWord := fun heq =>
    h.also (TokenKind.identifier.inj heq)
  refine Parses.bind (parses_specCases hne h.cases ?_ ?_) fun cases' hcases' => ?_
  · exact keyword?_isFreeName h.returnType
  · exact halso
  · refine .typeName fun _ => .expectName fun _ => .kind_cons ?_
    rw [if_pos rfl]
    exact parses_methodBehind h rfl rfl hcases'

theorem parses_method {m : Method} (h : m.Writable) :
    Parses true (member .standard) m.words k (·.unspanned = (Member.method m).unspanned) := by
  by_cases hne : m.cases = []
  · rw [Method.words, hne]
    apply parses_member_of_plain h.returnType h.also
    refine .typeName fun _ => .expectName fun _ => .kind_cons ?_
    rw [if_pos rfl]
    refine (parses_methodBehind h (by rfl) (by rfl) (by rw [hne])).bind_last fun m' hm' => .pure ?_
    rw [Member.unspanned, Member.unspanned, hm']
  · -- The first clause of the first case tells that a specification stands here.
    obtain ⟨c, cases, hcases⟩ := List.exists_cons_of_ne_nil hne
    have hc := h.cases c (by rw [hcases]; exact List.mem_cons_self)
    obtain ⟨s, clauses, hclauses⟩ := List.exists_cons_of_ne_nil hc.nonempty
    obtain ⟨hs, keyword, hkind⟩ := hc.clauses s (by rw [hclauses]; exact List.mem_cons_self)
    have hfirst : firstKind (m.words ++ k) = .identifier s.descriptor.keyword := by
      rw [Method.words, hcases]
      cases cases <;> simp [separated, SpecCase.words, hclauses, SpecClause.words]
    refine .clauseKeyword? ?_
    rw [hfirst, keyword?_standard hs.descriptor]
    simp only [clauseMember, hkind]
    refine (parses_specifiedMethod h hne).bind_last fun m' hm' => .pure ?_
    rw [Member.unspanned, Member.unspanned, hm']

theorem parses_member {m : Member} (h : m.Writable) :
    Parses true (member .standard) m.words k (·.unspanned = m.unspanned) := by
  cases m with
  | field f => exact parses_field h
  | clause c =>
    obtain ⟨keyword, hkind⟩ := h.kind
    refine .clauseKeyword?_cons ?_
    rw [keyword?_standard h.descriptor]
    simp only [clauseMember, hkind]
    refine (parses_typeClause h).bind_last fun c' hc' => .pure ?_
    rw [Member.unspanned, Member.unspanned, hc']
  | method m => exact parses_method h

/-! ### Classes and units -/

/-- A member starts with a word. -/
theorem exists_identifier_of_member {m : Member} (h : m.Writable) :
    ∃ word w, m.words = .identifier word :: w := by
  cases m with
  | field f =>
    obtain ⟨type, name, init, ghost, span⟩ := f
    cases ghost <;> exact ⟨_, _, rfl⟩
  | clause c => exact ⟨_, _, rfl⟩
  | method m =>
    cases hcases : m.cases with
    | nil => exact ⟨m.returnType.text, _, by rw [Member.words, Method.words, hcases]; rfl⟩
    | cons c cases =>
      have hc := h.cases c (by rw [hcases]; exact List.mem_cons_self)
      obtain ⟨s, clauses, hclauses⟩ := List.exists_cons_of_ne_nil hc.nonempty
      rw [Member.words, Method.words, hcases]
      cases cases <;> simp [separated, SpecCase.words, hclauses, SpecClause.words]

theorem parses_members {ms : List Member} (h : ∀ m ∈ ms, m.Writable) :
    Parses true (members .standard) (ms.flatMap (·.words)) (.symbol .rightBrace :: k)
      (fun ms' => ms'.map Member.unspanned = ms.map Member.unspanned) := by
  induction ms with
  | nil => exact .recur fun again _ => .kind (.pure rfl)
  | cons m ms ih =>
    rw [List.forall_mem_cons] at h
    obtain ⟨word, w, hw⟩ := exists_identifier_of_member h.1
    have hfirst : firstKind ((m :: ms).flatMap (·.words) ++ .symbol .rightBrace :: k) =
        .identifier word := by
      rw [List.flatMap_cons, hw]
      rfl
    refine .recur fun again hagain => .kind ?_
    rw [hfirst]
    have hmember : Parses true (memberOrSkip .standard) m.words
        (ms.flatMap (·.words) ++ .symbol .rightBrace :: k)
        (fun m' => m'.map Member.unspanned = some m.unspanned) := by
      rw [← List.append_nil m.words]
      refine .outcome (parses_member h.1) fun m' hm' => .pure ?_
      rw [Option.map_some, hm']
    refine hmember.bind fun m' hm' => ?_
    have hlt : (ms.flatMap (·.words) ++ .symbol .rightBrace :: k).length <
        ((m :: ms).flatMap (·.words) ++ .symbol .rightBrace :: k).length := by
      rw [List.flatMap_cons, hw]
      simp only [List.length_append, List.length_cons]
      omega
    refine (hagain () _ _ _ hlt (ih h.2)).bind_last fun ms' hms' => .pure ?_
    obtain ⟨m'', rfl, hm''⟩ := Option.map_eq_some_iff.1 hm'
    rw [Option.toList_some, List.singleton_append, List.map_cons, List.map_cons, hm'', hms']

theorem parses_classDeclaration {c : Class} (h : c.Writable) :
    Parses true (classDeclaration .standard) c.words k (·.unspanned = c.unspanned) := by
  refine .advance (by simp) fun _ => .expectName fun _ => .expectSymbol fun _ => ?_
  refine (parses_members h.members).bind fun ms' hms' => ?_
  refine .outcome (w := []) .expectSymbol_self fun _ _ => .previousEnd fun _ => .pure ?_
  rw [Class.unspanned, Class.unspanned, hms']
  rfl

theorem parses_classes {cs : List Class} (h : ∀ c ∈ cs, c.Writable) :
    Parses true (classes .standard) (cs.flatMap (·.words)) [.endOfText]
      (fun cs' => cs'.map Class.unspanned = cs.map Class.unspanned) := by
  induction cs with
  | nil => exact .recur fun again _ => .kind (.pure rfl)
  | cons c cs ih =>
    rw [List.forall_mem_cons] at h
    refine .recur fun again hagain => .kind ?_
    have hclass : Parses true (classOrSkip .standard) c.words
        (cs.flatMap (·.words) ++ [.endOfText])
        (fun c' => c'.map Class.unspanned = some c.unspanned) := by
      rw [← List.append_nil c.words]
      refine .outcome (parses_classDeclaration h.1) fun c' hc' => .pure ?_
      rw [Option.map_some, hc']
    refine Parses.bind hclass fun c' hc' => ?_
    have hlt : (cs.flatMap (·.words) ++ [TokenKind.endOfText]).length <
        ((c :: cs).flatMap (·.words) ++ [TokenKind.endOfText]).length := by
      rw [List.flatMap_cons, Class.words]
      simp only [List.length_append, List.length_cons]
      omega
    refine (hagain () _ _ _ hlt (ih h.2)).bind_last fun cs' hcs' => .pure ?_
    obtain ⟨c'', rfl, hc''⟩ := Option.map_eq_some_iff.1 hc'
    rw [Option.toList_some, List.singleton_append, List.map_cons, List.map_cons, hc'', hcs']

end Contracts.Parser
