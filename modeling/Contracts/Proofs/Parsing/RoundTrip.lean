import Contracts.Proofs.Parsing.UnitComplete

/-! Printing a unit and reading the text. -/

namespace Contracts

/-- A unit that can be written is read again from its source text with no error, up to
spans. -/
theorem parseUnit_print {u : CompilationUnit} (h : u.Writable) :
    (parseUnit .standard u.print).errors = [] ∧
      (parseUnit .standard u.print).unit.unspanned = u.unspanned := by
  have hspells : Spells u.words u.print.toList := by
    rw [CompilationUnit.print, String.toList_ofList]
    exact spells_spaced h.spellable
  obtain ⟨tokens, hlex, hkinds⟩ := lex_of_spells hspells
  obtain ⟨classes, c', hok, hclasses, hc'⟩ :=
    Parser.parses_classes h { rest := tokens } [] ⟨hkinds, rfl, rfl⟩
  have hunit : parseUnit .standard u.print = ⟨⟨classes⟩, []⟩ := by
    simp only [parseUnit, hlex, Cursor.parseUnit, hok, hc'.errors]
  rw [hunit]
  refine ⟨rfl, ?_⟩
  rw [CompilationUnit.unspanned, CompilationUnit.unspanned, hclasses]

/-- A class with a ghost field, a constraint over `for` and everything, and a method with
two specification cases, a label and an operand in parentheses. -/
theorem parseUnit_print_counter :
    let named (word : String) : Name := ⟨word, .origin⟩
    let old (e : Expr) : Expr :=
      .state ⟨.ofKind (.state .old), .old, [], .origin, .origin⟩ [e] none
    let clause (kind : ClauseKind) (e : Expr) : SpecClause := ⟨.ofKind kind, e, .origin⟩
    let x : Expr := .name (named "x")
    let count : Field :=
      ⟨named "int", named "count", some (.int 0 .origin), some (.ofKind .declaration), .origin⟩
    let grows : TypeClause :=
      ⟨.ofKind (.typeClause .constraint),
        .binary .atMost (old (.name (named "count"))) (.name (named "for")) .origin,
        some (.everything .origin), .origin⟩
    let body : List Statement :=
      [.labeled (named "start")
          (.assign (named "x") (.binary .mul (.binary .add x (.int 1 .origin) .origin) x .origin)
            .origin) .origin,
        .clause (clause (.statement .assert) (.unary .not (.name (named "assert")) .origin)),
        .leave (some x) .origin]
    let next : Method :=
      ⟨named "int", named "next", [⟨named "int", named "x", .origin⟩],
        [⟨[clause (.methodSpec .requires) (.name (named "requires"))], .origin⟩,
          ⟨[clause (.methodSpec .ensures)
            (.binary .equal (.result .origin) (old x) .origin)], .origin⟩],
        ⟨body, .origin⟩, .origin⟩
    let u : CompilationUnit :=
      ⟨[⟨named "Counter", [.field count, .clause grows, .method next], .origin⟩]⟩
    (parseUnit .standard u.print).errors = [] ∧
      (parseUnit .standard u.print).unit.unspanned = u.unspanned := by
  intro named old clause x count grows body next u
  have hold {e : Expr} (he : e.Writable false) : (old e).Writable false :=
    ⟨rfl, rfl, rfl, he, trivial⟩
  have hx (on : Bool) : x.Writable on := ⟨by decide, fun _ => by decide⟩
  have hname {word : String} (h : IsName word) : (Expr.name (named word)).Writable false :=
    ⟨h, fun h => nomatch h⟩
  have hcount : count.Writable := by
    refine ⟨fun d hd => (Option.some.inj hd).symm, by decide, by decide, by decide, ?_⟩
    exact fun e he => Option.some.inj he ▸ Nat.zero_le _
  have hgrows : grows.Writable := by
    refine ⟨rfl, ⟨_, rfl⟩, ⟨hold (hname (by decide)), hname (by decide)⟩, fun f hf => ?_⟩
    exact Option.some.inj hf ▸ ⟨trivial, rfl⟩
  have hbody : Statement.Writable.listWritable body := by
    have hsum : (Expr.binary .add x (.int 1 .origin) .origin).Writable true :=
      ⟨hx true, (by decide : 1 ≤ Piece.largestInteger)⟩
    refine ⟨⟨by decide, by decide, hsum, hx true⟩, ⟨⟨rfl, ?_⟩, _, rfl⟩, ?_, trivial⟩
    · exact hname (by decide)
    · exact fun e he => Option.some.inj he ▸ hx true
  have hnext : next.Writable := by
    refine ⟨by decide, by decide, by decide, ?_, ?_, hbody⟩
    · exact List.forall_mem_singleton.2 ⟨by decide, by decide⟩
    · refine List.forall_mem_cons.2 ⟨⟨List.cons_ne_nil _ _, ?_⟩,
        List.forall_mem_singleton.2 ⟨List.cons_ne_nil _ _, ?_⟩⟩
      · exact List.forall_mem_singleton.2 ⟨⟨rfl, hname (by decide)⟩, _, rfl⟩
      · exact List.forall_mem_singleton.2 ⟨⟨rfl, trivial, hold (hx false)⟩, _, rfl⟩
  refine parseUnit_print (List.forall_mem_singleton.2 ⟨by decide, ?_⟩)
  simp only [List.forall_mem_cons]
  exact ⟨hcount, hgrows, hnext, fun _ hm => nomatch hm⟩

end Contracts
