import Contracts.Proofs.Parsing.Progress
import Contracts.Proofs.Parsing.UnitSound
import Contracts.Proofs.Printing.Content

/-! Nothing is lost where a text is read without errors, and nothing is made up. A parser
accounts for what it reads (`Parser.AccountsAt`) when the words read, together with those that
were read for the same part before, have the content of the words that its result is written
with. Each way to compose parsers has a rule; recovery reports an error first, so it has to
account for nothing. A unit is read to the end of its text, so its tokens and those that it is
written with have the same content (`content_parseUnit`). -/

namespace Contracts

namespace Parser

variable {α β : Type} {registry : Registry}

/-- From this cursor, what is read without a new error goes on behind the words `before`, and
has with them the content of the words of the result. -/
def AccountsAt (c : Cursor) (before : List TokenKind) (words : α → List TokenKind)
    (p : Parser α) : Prop :=
  SoundAt c (fun w a => content (before ++ w) = content (words a)) p

/-- The parser starts a part of its own. -/
def Accounts (words : α → List TokenKind) (p : Parser α) : Prop := ∀ c, AccountsAt c [] words p

/-! ### Rules -/

namespace AccountsAt

variable {c : Cursor} {before : List TokenKind} {words : α → List TokenKind}
  {words' : β → List TokenKind} {p : Parser α}

/-- Any words may stand before that have the same content. -/
theorem behind {u : List TokenKind} (h : AccountsAt c (before ++ u) words p) :
    SoundAt c (fun w a => ∀ v, content v = content u →
      content (before ++ (v ++ w)) = content (words a)) p := by
  refine SoundAt.mono h fun w a hw v hv => ?_
  rw [← hw, List.append_assoc, content_append, content_append, content_append, content_append, hv]

theorem bind {f : α → Parser β} (hp : AccountsAt c [] words p)
    (hf : ∀ a d, AccountsAt d (before ++ words a) words' (f a)) :
    AccountsAt c before words' (p >>= f) :=
  SoundAt.bind hp fun a d _ => (hf a d).behind

/-- The last part of what is read. -/
theorem last {words' : α → List TokenKind} (hp : AccountsAt c [] words p)
    (h : ∀ a, content (before ++ words a) = content (words' a)) : AccountsAt c before words' p := by
  refine SoundAt.mono hp fun w a hw => ?_
  rw [List.nil_append] at hw
  rw [← h, content_append, content_append, hw]

theorem pure {a : α} (h : content before = content (words a)) :
    AccountsAt c before words (Pure.pure a) := by
  refine .of_ok rfl ?_
  rw [List.append_nil, h]

/-- The result is handed on. -/
theorem map {f : α → β} (hp : AccountsAt c before words p)
    (h : ∀ a, content (words a) = content (words' (f a))) :
    AccountsAt c before words' (p >>= fun a => Pure.pure (f a)) := by
  refine SoundAt.bind hp fun a d _ => .of_ok rfl fun v hv => ?_
  rw [List.append_nil, hv, h]

theorem failHere (fault : SyntaxFault) :
    AccountsAt c before words (Parser.failHere fault : Parser α) := .of_error rfl

/-- Looking ahead reads nothing. -/
theorem look {f : α → Parser β} {a : α} (hp : p c = .ok a c)
    (h : AccountsAt c before words' (f a)) : AccountsAt c before words' (p >>= f) :=
  SoundAt.look hp h

theorem kind {f : TokenKind → Parser β} (h : AccountsAt c before words' (f c.kind)) :
    AccountsAt c before words' (Parser.kind >>= f) := .look rfl h

theorem previousEnd {f : Nat → Parser β} (h : AccountsAt c before words' (f c.previous.stop)) :
    AccountsAt c before words' (Parser.previousEnd >>= f) := .look rfl h

theorem span {f : Span → Parser β} (h : AccountsAt c before words' (f c.span)) :
    AccountsAt c before words' (Parser.span >>= f) := .look rfl h

theorem clauseKeyword? {f : Option Descriptor → Parser β}
    (h : AccountsAt c before words' (f (c.kind.keyword? registry c.reserving))) :
    AccountsAt c before words' (Parser.clauseKeyword? registry >>= f) :=
  .look (clauseKeyword?_apply registry c) h

theorem advance {k : TokenKind} (hk : c.kind = k) (more : k ≠ .endOfText) :
    AccountsAt c [] (fun _ => [k]) Parser.advance :=
  (soundAt_advance hk more).mono fun _ _ h => congrArg content h.1

/-- Where an error is reported there is nothing to account for. -/
theorem reported (h : ∀ on, Yields on (fun _ => False) p) : AccountsAt c before words p :=
  SoundAt.mono (h c.reserving c rfl) fun _ _ h => h.elim

/-- A failure has to be reported. -/
theorem outcome {f : Except SyntaxError α → Parser β} (hp : AccountsAt c [] words p)
    (read : ∀ a d, AccountsAt d (before ++ words a) words' (f (.ok a)))
    (failed : ∀ e on, Yields on (fun _ => False) (f (.error e))) :
    AccountsAt c before words' (Parser.outcome p >>= f) := by
  refine (SoundAt.outcome hp).bind fun r d _ => ?_
  cases r with
  | ok a => exact SoundAt.mono (read a d).behind fun w b hb v hv => hb v (hv a rfl)
  | error e => exact SoundAt.mono (failed e d.reserving d rfl) fun _ _ h => h.elim

end AccountsAt

namespace Accounts

variable {words : α → List TokenKind} {p : Parser α}

theorem of_sound {D : Bool → List TokenKind → α → Prop} (h : ∀ on, Sound on (D on) p)
    (hD : ∀ on w a, D on w a → content w = content (words a)) : Accounts words p := fun c =>
  (h c.reserving c rfl).mono (hD c.reserving)

theorem sound (h : Accounts words p) (on : Bool) :
    Sound on (fun w a => content w = content (words a)) p := fun c _ => h c

theorem withReserving (on : Bool) (h : Accounts words p) :
    Accounts words (Parser.withReserving on p) :=
  .of_sound (fun _ => Sound.withReserving on (h.sound on)) fun _ _ _ h => h

theorem recur {step : (Unit → Parser α) → Parser α}
    (h : ∀ again, Accounts words (again ()) → Accounts words (step again)) :
    Accounts words (Parser.recur (fun again _ => step again) ()) :=
  recur_induction (M := fun _ c p => AccountsAt c [] words p) (fun hpq hq => SoundAt.congr hpq hq)
    (fun _ _ => .failHere _) (fun again hagain _ => h again (hagain ())) ()

end Accounts

/-! ### Tokens and lists -/

theorem accounts_expectSymbol (s : Symbol) : Accounts (fun _ => [.symbol s]) (expectSymbol s) :=
  .of_sound (fun _ => sound_expectSymbol s) fun _ _ _ h => congrArg content h

theorem accounts_accept (s : Symbol) :
    Accounts (fun found => if found then [.symbol s] else []) (accept s) :=
  .of_sound (fun _ => sound_accept s) fun _ _ _ h => congrArg content h

theorem accounts_nameOr (fault : TokenKind → SyntaxFault) :
    Accounts (fun n => [.identifier n.text]) (nameOr fault) :=
  .of_sound (fun _ => sound_nameOr fault) fun _ _ _ h => congrArg content h

theorem accounts_expectName (role : NameRole) :
    Accounts (fun n => [.identifier n.text]) (expectName role) := accounts_nameOr _

theorem accounts_typeName : Accounts (fun n => [.identifier n.text]) typeName := accounts_nameOr _

theorem accounts_commaSeparated {words : α → List TokenKind} {item : Parser α}
    (h : Accounts words item) :
    Accounts (separated (.symbol .comma) words) (commaSeparated item) :=
  .of_sound (fun on => sound_commaSeparated (h.sound on)) fun _ _ _ h =>
    h.2.content_separated fun _ _ h => h

theorem accounts_parenthesized {words : α → List TokenKind} {item : Parser α}
    (h : Accounts words item) :
    Accounts (separated (.symbol .comma) words) (parenthesized item) := by
  refine .of_sound (fun on => sound_parenthesized (h.sound on)) fun _ w as hw => ?_
  obtain ⟨v, rfl, hv⟩ := hw
  rw [← hv.content_separated fun _ _ h => h]
  exact content_parens v

theorem accounts_expression (registry : Registry) :
    Accounts (·.words .implication) (expression registry) :=
  .of_sound (sound_expression registry) fun _ _ _ h => h.content_eq .implication

theorem accounts_initialiser (registry : Registry) : Accounts initWords (initialiser registry) := by
  refine fun c => (accounts_accept .assign c).bind fun found d => ?_
  cases found with
  | true => exact (accounts_expression registry d).bind fun e x => .pure (by simp [initWords])
  | false => exact .pure rfl

/-- A reserved keyword is the word of its descriptor. -/
theorem kind_of_keyword? {k : TokenKind} {on : Bool} {d : Descriptor}
    (h : k.keyword? registry on = some d) : k = .identifier d.keyword := by
  unfold TokenKind.keyword? at h
  split at h
  · rw [Registry.keyword_of_get? h]
  · nomatch h

/-! ### Statements -/

theorem accountsAt_specClause {c : Cursor} {d : Descriptor} (hk : c.kind = .identifier d.keyword) :
    AccountsAt c [] SpecClause.words (specClause registry d) := by
  refine (AccountsAt.advance hk nofun).bind fun _ x => ?_
  refine ((accounts_expression registry).withReserving false x).bind fun e y => ?_
  refine (accounts_expectSymbol _ y).bind fun _ z => .previousEnd (.pure ?_)
  simp [SpecClause.words]

theorem accounts_variableDeclaration (registry : Registry) :
    Accounts Variable.words (variableDeclaration registry) := by
  refine fun c => (accounts_typeName c).bind fun type x => ?_
  refine (accounts_expectName _ x).bind fun name y => ?_
  refine (accounts_initialiser registry y).bind fun init z => ?_
  refine (accounts_expectSymbol _ z).bind fun _ e => .previousEnd (.pure ?_)
  simp [Variable.words]

theorem accounts_assignment (registry : Registry) :
    Accounts Statement.words (assignment registry) := by
  refine fun c => (accounts_expectName _ c).bind fun target x => ?_
  refine (accounts_expectSymbol _ x).bind fun _ y => ?_
  refine (accounts_expression registry y).bind fun value z => ?_
  refine (accounts_expectSymbol _ z).bind fun _ e => .previousEnd (.pure ?_)
  simp [Statement.words]

theorem accountsAt_leaveStatement {c : Cursor} (hk : c.kind = .reserved .returnWord) :
    AccountsAt c [] Statement.words (leaveStatement registry) := by
  refine (AccountsAt.advance hk nofun).bind fun t x => .kind ?_
  have finish (value : Option Expr) (before : List TokenKind) (y : Cursor)
      (h : content before =
        content (.reserved .returnWord :: (value.map (·.words .implication)).getD [])) :
      AccountsAt y before Statement.words (do
        let _ ← expectSymbol .semicolon
        return Statement.leave value ⟨t.span.start, ← previousEnd⟩) := by
    refine (accounts_expectSymbol _ y).bind fun _ z => .previousEnd (.pure ?_)
    rw [content_append, h]
    simp [Statement.words]
  split
  · exact finish none _ x rfl
  · have value : Accounts (fun value => (value.map (·.words .implication)).getD [])
        (some <$> expression registry) := by
      rw [map_eq_pure_bind]
      exact fun y => (accounts_expression registry y).bind fun e z => .pure rfl
    exact (value x).bind fun value y => finish value _ y rfl

theorem accounts_expressionStatement (registry : Registry) :
    Accounts Statement.words (expressionStatement registry) := by
  refine fun c => (accounts_expression registry c).bind fun e x => ?_
  exact (accounts_expectSymbol _ x).bind fun _ y => .pure rfl

theorem accountsAt_clauseStatement {c : Cursor} {d : Descriptor}
    (hk : c.kind = .identifier d.keyword) :
    AccountsAt c [] Statement.words (clauseStatement registry d) := by
  unfold clauseStatement
  split
  · exact (accountsAt_specClause hk).bind fun x e => .pure rfl
  · refine (AccountsAt.advance hk nofun).bind fun _ x => ?_
    exact (accounts_variableDeclaration registry x).bind fun v y => .pure rfl
  · exact .failHere _

section

variable {statement : Parser Statement} (h : Accounts Statement.words statement)

include h

theorem accounts_statementOrPlaceholder :
    Accounts Statement.words (statementOrPlaceholder statement) := by
  refine fun c => .span ((h c).outcome (fun s d => .pure rfl) fun e _ => .report e ?_)
  exact .next sound_skipThroughTerminator fun _ => .next .previousEnd fun _ => .pure trivial

theorem accounts_statementsOf :
    Accounts Statement.words.listWords (statementsOf statement) := by
  refine .recur fun again hagain c => .kind ?_
  split
  · exact .pure rfl
  · exact .pure rfl
  · next hk => exact (AccountsAt.advance hk nofun).bind fun _ x => (hagain x).last fun ss => by simp
  · refine (accounts_statementOrPlaceholder h c).bind fun s x => ?_
    exact (hagain x).bind fun ss y => .pure rfl

theorem accounts_blockOf : Accounts Block.words (blockOf statement) := by
  refine fun c => (accounts_expectSymbol _ c).bind fun _ x => ?_
  refine (accounts_statementsOf h x).bind fun ss y => ?_
  refine (accounts_expectSymbol _ y).bind fun _ z => .pure ?_
  simp [Block.words]

theorem accounts_labeledStatement : Accounts Statement.words (labeledStatement statement) := by
  refine fun c => (accounts_expectName _ c).bind fun label x => ?_
  refine (accounts_expectSymbol _ x).bind fun _ y => ?_
  exact (h y).bind fun body z => .previousEnd (.pure rfl)

theorem accounts_plainStatement :
    Accounts Statement.words (plainStatement registry statement) := by
  refine fun c => .kind (.look (a := c.secondKind) rfl ?_)
  split
  · exact accounts_labeledStatement h c
  · exact (accounts_variableDeclaration registry c).bind fun v d => .pure rfl
  · exact accounts_assignment registry c
  · exact accounts_expressionStatement registry c

theorem accounts_statementOf : Accounts Statement.words (statementOf registry statement) := by
  refine fun c => .kind ?_
  split
  · exact (accounts_blockOf h c).bind fun b d => .pure rfl
  · next hk => exact accountsAt_leaveStatement hk
  · refine .clauseKeyword? ?_
    split
    · next d found => exact accountsAt_clauseStatement (kind_of_keyword? found)
    · exact accounts_plainStatement h c

end

theorem accounts_statement (registry : Registry) :
    Accounts Statement.words (statement registry) :=
  .recur fun _ hagain => accounts_statementOf hagain

theorem accounts_block (registry : Registry) : Accounts Block.words (block registry) :=
  accounts_blockOf (accounts_statement registry)

/-! ### Members -/

theorem accounts_frame :
    Accounts (fun found => (found.map Frame.words).getD []) frame := by
  refine fun c => .kind ?_
  split
  · next hk =>
    refine (AccountsAt.advance hk nofun).bind fun _ x => .kind ?_
    split
    · next hk' => exact (AccountsAt.advance hk' nofun).bind fun t y => .pure rfl
    · exact (accounts_commaSeparated (accounts_nameOr _) x).bind fun names y => .pure (by
        simp [Frame.words])
  · exact .pure rfl

theorem accounts_typeClauseBody (registry : Registry) (d : Descriptor) :
    Accounts (fun body => body.1.words .implication ++ (body.2.map Frame.words).getD [])
      (typeClauseBody registry d) := by
  refine fun c => (accounts_expression registry c).bind fun e x => ?_
  split
  · exact (accounts_frame x).bind fun f y => .pure rfl
  · exact .pure (by simp)

theorem accountsAt_typeClause {c : Cursor} {d : Descriptor} (hk : c.kind = .identifier d.keyword) :
    AccountsAt c [] TypeClause.words (typeClause registry d) := by
  refine (AccountsAt.advance hk nofun).bind fun t x => ?_
  have body := (accounts_typeClauseBody registry d).withReserving false x
  refine body.outcome (fun read y => ?_) fun e _ => yields_brokenTypeClause _ _ _
  refine (accounts_accept _ y).bind fun closed z => ?_
  cases closed with
  | true => exact .previousEnd (.pure (by simp [TypeClause.words]))
  | false => exact .span (.reported fun _ => yields_brokenTypeClause _ _ _)

/-- Up to its terminator, a field is read behind its names. -/
theorem accountsAt_fieldBehind {type name : Name} {c : Cursor} {before : List TokenKind}
    {words : α → List TokenKind} {f : Field → α}
    (h : ∀ init s, content (before ++ initWords init) =
      content (words (f ⟨type, name, init, none, s⟩))) :
    AccountsAt c before words (do return f (← fieldBehind registry type name)) := by
  simp only [fieldBehind, bind_assoc, pure_bind]
  refine (accounts_initialiser registry c).bind fun init x => ?_
  refine (accounts_expectSymbol _ x).bind fun _ y => .previousEnd (.pure ?_)
  rw [content_append, h init ⟨type.span.start, y.previous.stop⟩]
  exact List.append_nil _

theorem accountsAt_ghostField {c : Cursor} {d : Descriptor} (hk : c.kind = .identifier d.keyword) :
    AccountsAt c [] Field.words (ghostField registry d) := by
  refine (AccountsAt.advance hk nofun).bind fun t x => ?_
  refine (accounts_typeName x).bind fun type y => (accounts_expectName _ y).bind fun name z => ?_
  refine accountsAt_fieldBehind fun init s => ?_
  simp [Field.words]

theorem accounts_param : Accounts Param.words param := fun c =>
  (accounts_typeName c).bind fun _ x => (accounts_expectName _ x).bind fun _ _ => .pure rfl

theorem accountsAt_methodBehind {cases : List SpecCase} {type name : Name} {c : Cursor}
    {before : List TokenKind}
    (h : content before = content (separated (.identifier alsoWord) (·.words) cases ++
      [.identifier type.text, .identifier name.text])) :
    AccountsAt c before Method.words (methodBehind registry cases type name) := by
  refine (accounts_parenthesized accounts_param c).bind fun params x => ?_
  refine (accounts_block registry x).bind fun body y => .previousEnd (.pure ?_)
  rw [content_append, content_append, h]
  simp [Method.words]

theorem accounts_specClauses (registry : Registry) :
    Accounts (List.flatMap SpecClause.words) (specClauses registry) := by
  refine .recur fun again hagain c => .clauseKeyword? ?_
  split
  · next d found =>
    have hk := kind_of_keyword? (Option.filter_eq_some_iff.1 found).1
    refine (accountsAt_specClause hk).bind fun x y => ?_
    exact (hagain y).bind fun xs z => .pure rfl
  · exact .pure rfl

theorem accounts_specCase (registry : Registry) : Accounts SpecCase.words (specCase registry) := by
  refine fun c => .span ((accounts_specClauses registry c).bind fun xs x => ?_)
  split
  · exact .failHere _
  · exact .previousEnd (.pure rfl)

/-- There is one case at least, so `also` stands between two of them. -/
theorem soundAt_specCases (registry : Registry) (c : Cursor) :
    SoundAt c (fun w xs => xs ≠ [] ∧
      content w = content (separated (.identifier alsoWord) (·.words) xs))
      (specCases registry) := by
  refine recur_induction (M := fun _ c p => SoundAt c (fun w (xs : List SpecCase) => xs ≠ [] ∧
      content w = content (separated (.identifier alsoWord) (·.words) xs)) p)
    SoundAt.congr (fun _ _ => .of_error rfl) (fun again hagain _ c => ?_) () c
  refine SoundAt.bind (accounts_specCase registry c) fun x d _ => .look (a := d.kind) rfl ?_
  split
  · next hk =>
    refine (soundAt_advance hk nofun).bind fun _ e _ => ?_
    refine (hagain () e).bind fun xs _ _ => .of_ok rfl ?_
    rintro w ⟨hne, hw⟩ _ ⟨rfl, -⟩ v hv
    obtain ⟨y, ys, rfl⟩ := List.exists_cons_of_ne_nil hne
    rw [List.nil_append] at hv
    refine ⟨List.cons_ne_nil _ _, ?_⟩
    simp [separated, hv, hw]
  · refine .of_ok rfl fun v hv => ⟨List.cons_ne_nil _ _, ?_⟩
    rw [List.append_nil]
    exact hv

theorem accounts_specCases (registry : Registry) :
    Accounts (separated (.identifier alsoWord) (·.words)) (specCases registry) := fun c =>
  (soundAt_specCases registry c).mono fun _ _ h => h.2

theorem accounts_specifiedMethod (registry : Registry) :
    Accounts Method.words (specifiedMethod registry) := by
  refine fun c => (accounts_specCases registry c).bind fun xs x => ?_
  refine (accounts_typeName x).bind fun type y => ?_
  refine (accounts_expectName _ y).bind fun name z => .kind ?_
  split
  · exact accountsAt_methodBehind (by simp)
  · exact .failHere _

theorem accountsAt_clauseMember {c : Cursor} {d : Descriptor}
    (hk : c.kind = .identifier d.keyword) :
    AccountsAt c [] Member.words (clauseMember registry d) := by
  unfold clauseMember
  split
  · exact (accountsAt_typeClause hk).map fun _ => rfl
  · exact (accounts_specifiedMethod registry c).map fun _ => rfl
  · exact (accountsAt_ghostField hk).map fun _ => rfl
  · exact .failHere _

theorem accounts_plainMember (registry : Registry) :
    Accounts Member.words (plainMember registry) := by
  refine fun c => (accounts_typeName c).bind fun type x => ?_
  refine (accounts_expectName _ x).bind fun name y => .kind ?_
  split
  · exact AccountsAt.map (accountsAt_methodBehind rfl) fun _ => rfl
  · exact accountsAt_fieldBehind fun init s => by simp [Member.words, Field.words]

theorem accounts_member (registry : Registry) : Accounts Member.words (member registry) := by
  refine fun c => .clauseKeyword? ?_
  split
  · next d found => exact accountsAt_clauseMember (kind_of_keyword? found)
  · refine .look (a := c.reserving) rfl (.kind ?_)
    split
    · exact .failHere _
    · exact accounts_plainMember registry c

/-! ### Classes -/

theorem accounts_memberOrSkip (registry : Registry) :
    Accounts (fun m => m.toList.flatMap Member.words) (memberOrSkip registry) := by
  refine fun c => (accounts_member registry c).outcome (fun m d => .pure (by simp)) fun e _ => ?_
  exact .report e (.next sound_skipMember fun _ => .pure trivial)

theorem accounts_members (registry : Registry) :
    Accounts (List.flatMap Member.words) (members registry) := by
  refine .recur fun again hagain c => .kind ?_
  split
  · exact .pure rfl
  · exact .pure rfl
  · next hk => exact (AccountsAt.advance hk nofun).bind fun _ x => (hagain x).last fun ms => by simp
  · refine (accounts_memberOrSkip registry c).bind fun m x => ?_
    exact (hagain x).bind fun ms y => .pure (by simp)

theorem accountsAt_classDeclaration {c : Cursor} (hk : c.kind = .reserved .classWord) :
    AccountsAt c [] Class.words (classDeclaration registry) := by
  refine (AccountsAt.advance hk nofun).bind fun t x => ?_
  refine (accounts_expectName _ x).bind fun name y => (accounts_expectSymbol _ y).bind fun _ z => ?_
  refine (accounts_members registry z).bind fun ms e => ?_
  refine (accounts_expectSymbol _ e).outcome (fun _ f => .previousEnd (.pure ?_)) fun e _ => ?_
  · simp [Class.words]
  · exact .report e (.next .previousEnd fun _ => .pure trivial)

theorem accountsAt_classOrSkip {c : Cursor} (hk : c.kind = .reserved .classWord) :
    AccountsAt c [] (fun x => x.toList.flatMap Class.words) (classOrSkip registry) := by
  refine (accountsAt_classDeclaration hk).outcome (fun x d => .pure (by simp)) fun e _ => ?_
  exact .report e (.next sound_skipToClass fun _ => .pure trivial)

theorem accounts_classes (registry : Registry) :
    Accounts (List.flatMap Class.words) (classes registry) := by
  refine .recur fun again hagain c => .kind ?_
  split
  · exact .pure rfl
  · next hk =>
    refine (accountsAt_classOrSkip hk).bind fun x d => ?_
    exact (hagain d).bind fun xs e => .pure (by simp)
  · refine .span (.reported fun on => .report _ ?_)
    refine .next .advance fun _ => .next sound_skipToClass fun _ => ?_
    exact (hagain.sound on).mono fun _ _ _ => trivial

end Parser

/-! ### Texts -/

theorem faults_ne_nil {source : String} {errors : List LexError} (h : lex source = .error errors) :
    errors ≠ [] := by
  unfold lex at h
  dsimp only at h
  split at h
  · nomatch h
  · next some =>
    injection h with h
    exact h ▸ some

/-- Behind the end of the text there is no token, and it is no content itself. -/
theorem content_behind {source : String} {tokens ts : List Token} {d : Cursor}
    (h : lex source = .ok tokens) (htokens : tokens = ts ++ d.rest) (hend : d.kind = .endOfText) :
    content d.kinds = [] := by
  obtain ⟨body, last, rfl, inner⟩ := exists_tokens_of_lex h
  obtain ⟨rest, previous, errors, reserving⟩ := d
  cases rest with
  | nil => rfl
  | cons t us =>
    have ht : t.kind = .endOfText := hend
    cases us with
    | nil => exact congrArg (fun k => content [k]) ht
    | cons u us =>
      have split := congrArg List.dropLast htokens
      rw [List.dropLast_concat, List.dropLast_append_cons, List.dropLast_cons_cons] at split
      exact absurd ht (inner t (by simp [split]))

/-- Nothing is lost and nothing is made up where a text is read without errors: the tokens of
the text and the words that its tree is written with are the same, in the same order, when
terminators, parentheses and the end of the text are left out of both. -/
theorem content_parseUnit {registry : Registry} {source : String}
    (h : (parseUnit registry source).errors = []) :
    ∃ tokens, lex source = .ok tokens ∧
      content (tokens.map (·.kind)) = content (parseUnit registry source).unit.words := by
  cases hlex : lex source with
  | error errors =>
    have faults : (parseUnit registry source).errors = errors.map .ofLexError := by
      rw [parseUnit, hlex]
    exact absurd (List.map_eq_nil_iff.1 (faults.symm.trans h)) (faults_ne_nil hlex)
  | ok tokens =>
    refine ⟨tokens, rfl, ?_⟩
    obtain ⟨cs, d, run, hend⟩ := (Parser.loops_classes registry).endsOk () { rest := tokens }
    have read : parseUnit registry source = ⟨⟨cs⟩, d.errors⟩ := by
      have run : Parser.classes registry { rest := tokens } = .ok cs d := run
      rw [parseUnit, hlex]
      dsimp only [Cursor.parseUnit]
      rw [run]
    rw [read] at h ⊢
    obtain ⟨w, ⟨ts, rfl, htokens⟩, same⟩ :=
      (Parser.accounts_classes registry { rest := tokens }).reads cs d run h
    have behind := content_behind hlex htokens hend
    have htokens : tokens = ts ++ d.rest := htokens
    rw [htokens, List.map_append, content_append, ← Cursor.kinds, behind, List.append_nil]
    exact same

/-- With terminators that nothing stands before, parentheses that group nothing, and the words
`also` and `for`. -/
theorem content_parseUnit_counter :
    let source :=
      "class A \x7b constraint (n) <= 1 for f;; requires n; also ensures (\\result) < n; " ++
      "int f(int x) \x7b ; return (x + 1) * n; \x7d \x7d"
    (parseUnit .standard source).errors = [] ∧
      ∃ tokens, lex source = .ok tokens ∧
        content (tokens.map (·.kind)) = content (parseUnit .standard source).unit.words := by
  intro source
  have clean : (parseUnit .standard source).errors = [] := by decide +kernel
  exact ⟨clean, content_parseUnit clean⟩

end Contracts
