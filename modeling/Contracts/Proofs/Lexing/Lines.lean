import Contracts.Proofs.Lexing.Marks

/-! Lexing line by line. No piece is told by what stands behind the end of its line, except for
a comment that has not been closed yet and a carriage return that waits for its line feed; in
a text with neither of them the pieces stay when a further line is written below it
(`marks_append_line`), so the tokens of both are those of the one and then those of the other,
and so are the faults (`lex_append_line`). -/

namespace Contracts

open Text

/-- The faults that lexing reports, none if it gives tokens. -/
def lexErrors (source : String) : List LexError :=
  match lex source with
  | .ok _ => []
  | .error errors => errors

namespace Piece

variable {c : Char} {cs ds body : List Char}

/-! ### Recognisers before a line feed -/

theorem takeWhile_append_feed {p : Char → Bool} (hp : p '\n' = false) (cs ds : List Char) :
    (cs ++ '\n' :: ds).takeWhile p = cs.takeWhile p := by
  induction cs with
  | nil => exact List.takeWhile_cons_of_neg (by simp [hp])
  | cons c cs ih => rw [List.cons_append, List.takeWhile_cons, List.takeWhile_cons, ih]

theorem isPrefixOf_append_feed {text : List Char} (htext : '\n' ∉ text) (cs ds : List Char) :
    text.isPrefixOf (cs ++ '\n' :: ds) = text.isPrefixOf cs := by
  induction text generalizing cs with
  | nil => simp
  | cons t text ih =>
    obtain ⟨ht, hrest⟩ := not_or.1 (mt List.mem_cons.2 htext)
    cases cs with
    | nil => simp [List.isPrefixOf, Ne.symm ht]
    | cons c cs => simp only [List.cons_append, List.isPrefixOf, ih hrest]

/-- Without a carriage return a line comment ends at a line feed or with the text. -/
theorem lineComment?_append_feed (h : '\r' ∉ cs) (ds : List Char) :
    lineComment? (cs ++ '\n' :: ds) = lineComment? cs := by
  have split : cs = cs.takeWhile (!endsLine ·) ++ cs.dropWhile (!endsLine ·) :=
    List.takeWhile_append_dropWhile.symm
  have inside : ∀ d ∈ cs.takeWhile (!endsLine ·), endsLine d = false := fun d hd => by
    simpa using List.mem_takeWhile_imp hd
  have ends : cs.dropWhile (!endsLine ·) = [] ∨ ∃ es, cs.dropWhile (!endsLine ·) = '\n' :: es := by
    cases hrest : cs.dropWhile (!endsLine ·) with
    | nil => exact .inl rfl
    | cons d es =>
      have hd : endsLine d = true := by
        have := List.head?_dropWhile_not (!endsLine ·) cs
        simpa [hrest] using this
      simp only [endsLine, Bool.or_eq_true, beq_iff_eq] at hd
      rcases hd with rfl | rfl
      · exact .inr ⟨es, rfl⟩
      · refine absurd ?_ h
        rw [split, hrest]
        exact List.mem_append_right _ List.mem_cons_self
  have alone : lineComment? cs = some (cs.takeWhile (!endsLine ·)) := by
    refine lineComment?_eq_some_iff.2 ⟨_, split, inside, ?_⟩
    rcases ends with hend | ⟨es, hend⟩ <;> rw [hend]
    · exact .textEnd
    · exact .feed es
  rw [alone]
  refine lineComment?_eq_some_iff.2 ⟨cs.dropWhile (!endsLine ·) ++ '\n' :: ds, ?_, inside, ?_⟩
  · rw [← List.append_assoc, ← split]
  · rcases ends with hend | ⟨es, hend⟩ <;> rw [hend] <;> exact .feed _

/-- Nothing behind a closed comment opens it again. -/
theorem blockComment?_append (h : blockComment? cs = some body) (ds : List Char) :
    blockComment? (cs ++ ds) = some body := by
  obtain ⟨text, rest, rfl, rfl, hfirst⟩ := blockComment?_eq_some_iff.1 h
  exact blockComment?_eq_some_iff.2 ⟨text, rest ++ ds, rfl, List.append_assoc .., hfirst⟩

theorem symbol?_append_feed (cs ds : List Char) : symbol? (cs ++ '\n' :: ds) = symbol? cs := by
  have plain (s : Symbol) : '\n' ∉ s.spelling.toList := by
    cases s <;> decide
  simp only [symbol?, isPrefixOf_append_feed (plain _)]

theorem lexeme_append_feed (c : Char) (cs ds : List Char) :
    lexeme c (cs ++ '\n' :: ds) = lexeme c cs := by
  have hword : isWordChar '\n' = false := by decide
  have hdigit : Char.isDigit '\n' = false := by decide
  have hsymbol : symbol? (c :: (cs ++ '\n' :: ds)) = symbol? (c :: cs) :=
    symbol?_append_feed (c :: cs) ds
  simp only [lexeme, takeWhile_append_feed hword, takeWhile_append_feed hdigit, hsymbol]

theorem head_line (cs : List Char) :
    head '/' ('/' :: cs) =
      match lineComment? cs with
      | some body => ⟨.comment, '/', '/' :: body⟩
      | none => lexeme '/' ('/' :: cs) :=
  (if_neg (by decide)).trans (if_pos rfl)

theorem head_block (cs : List Char) :
    head '/' ('*' :: cs) =
      match blockComment? cs with
      | some body => ⟨.comment, '/', '*' :: body⟩
      | none => ⟨.fault .unclosedComment, '/', '*' :: cs⟩ :=
  (if_neg (by decide)).trans (if_pos rfl)

theorem head_slash {d : Char} (hline : d ≠ '/') (hblock : d ≠ '*') (cs : List Char) :
    head '/' (d :: cs) = lexeme '/' (d :: cs) := by
  rw [head, if_neg (by decide), if_pos rfl]
  · exact fun _ heq => hline (List.cons.inj heq).1
  · exact fun _ heq => hblock (List.cons.inj heq).1

/-- The first piece of a text other than white space stays when a line is written below. -/
theorem head_append_feed (hc : isBlank c = false) (hreturn : '\r' ∉ cs)
    (hclosed : (head c cs).kind ≠ .fault .unclosedComment) (ds : List Char) :
    head c (cs ++ '\n' :: ds) = head c cs := by
  by_cases hslash : c = '/'
  · subst hslash
    have hlexeme := lexeme_append_feed '/' cs ds
    cases cs with
    | nil =>
      rw [List.nil_append, head_slash (by decide) (by decide)]
      exact hlexeme
    | cons d cs =>
      have hrest : '\r' ∉ cs := fun h => hreturn (List.mem_cons_of_mem _ h)
      rw [List.cons_append] at hlexeme ⊢
      by_cases hline : d = '/'
      · subst hline
        rw [head_line, head_line, lineComment?_append_feed hrest, hlexeme]
      by_cases hblock : d = '*'
      · subst hblock
        rw [head_block] at hclosed ⊢
        cases hbody : blockComment? cs with
        | none => exact absurd (by rw [hbody]) hclosed
        | some body => rw [head_block, hbody, blockComment?_append hbody]
      · rw [head_slash hline hblock, head_slash hline hblock, hlexeme]
  · rw [head_eq_lexeme hc hslash, head_eq_lexeme hc hslash, lexeme_append_feed]

end Piece

/-! ### Texts -/

/-- The marks of two lines are those of the first and, so much later, those of the second. -/
theorem marks_append_line {start : Nat} {cs : List Char} (hreturn : '\r' ∉ cs)
    (hclosed : ∀ m ∈ marks start cs, m.1 ≠ .fault .unclosedComment) (ds : List Char) :
    marks start (cs ++ '\n' :: ds) =
      marks start cs ++ marks (start + (byteLength cs + 1)) ds := by
  induction hn : cs.length using Nat.strong_induction_on generalizing start cs with
  | _ n ih =>
    cases cs with
    | nil => exact marks_cons_of_blank (by decide)
    | cons c cs =>
      have hrest : '\r' ∉ cs := fun h => hreturn (List.mem_cons_of_mem _ h)
      rw [List.length_cons] at hn
      cases hc : isBlank c with
      | true =>
        rw [marks_cons_of_blank hc] at hclosed
        rw [List.cons_append, marks_cons_of_blank hc, marks_cons_of_blank hc,
          ih cs.length (by omega) hrest hclosed rfl, byteLength, Nat.add_assoc, Nat.add_assoc]
      | false =>
        obtain ⟨tail, htail⟩ := Piece.head_others_isPrefix c cs
        rw [marks_eq_cons hc htail] at hclosed
        obtain ⟨hfirst, hothers⟩ := List.forall_mem_cons.1 hclosed
        have hhead := Piece.head_append_feed hc hrest hfirst ds
        have hlong : (Piece.head c (cs ++ '\n' :: ds)).others ++ (tail ++ '\n' :: ds) =
            cs ++ '\n' :: ds := by
          rw [hhead, ← List.append_assoc, htail]
        have hsize : byteLength (c :: cs) = (Piece.head c cs).byteLength + byteLength tail := by
          rw [Piece.byteLength, Piece.text, Piece.head_first, ← byteLength_append,
            List.cons_append, htail]
        have hreturn' : '\r' ∉ tail := fun h => hrest (htail ▸ List.mem_append_right _ h)
        have hlength := congrArg List.length htail
        rw [List.length_append] at hlength
        rw [List.cons_append, marks_eq_cons hc hlong, marks_eq_cons hc htail, hhead,
          ih tail.length (by omega) hreturn' hothers rfl, hsize, List.cons_append, Nat.add_assoc,
          Nat.add_assoc]

theorem lexErrors_marks (source : String) :
    lexErrors source = markedFaults (marks 0 source.toList) := by
  rw [lexErrors, lex_marks]
  cases markedFaults (marks 0 source.toList) <;> rfl

/-- A text without carriage returns whose block comments are closed is lexed by itself: a line
break and any further text behind it add the tokens or the faults of that text, so much later,
and change nothing else. -/
theorem lex_append_line (a b : String) (hreturn : '\r' ∉ a.toList)
    (hclosed : ∀ e ∈ lexErrors a, e.fault ≠ .unclosedComment) :
    lex (a ++ "\n" ++ b) =
      match lex a, lex b with
      | .ok first, .ok second =>
        .ok (first.dropLast ++ second.map (·.shift (a.utf8ByteSize + 1)))
      | _, _ => .error (lexErrors a ++ (lexErrors b).map (·.shift (a.utf8ByteSize + 1))) := by
  have hmarked : ∀ m ∈ marks 0 a.toList, m.1 ≠ .fault .unclosedComment := by
    intro m hm hkind
    refine hclosed ⟨.unclosedComment, m.2⟩ ?_ rfl
    rw [lexErrors_marks]
    exact List.mem_filterMap.2 ⟨m, hm, by rw [hkind]; rfl⟩
  have htext : (a ++ "\n" ++ b).toList = a.toList ++ '\n' :: b.toList := by simp
  have hsize : (a ++ "\n" ++ b).utf8ByteSize = b.utf8ByteSize + (a.utf8ByteSize + 1) := by
    rw [String.utf8ByteSize_append, String.utf8ByteSize_append]
    exact Nat.add_comm ..
  have hmarks := marks_append_line hreturn hmarked b.toList
  rw [marks_add, byteLength_toList] at hmarks
  have hfaults := congrArg markedFaults hmarks
  have htokens := congrArg markedTokens hmarks
  rw [markedFaults_append, markedFaults_map_shift] at hfaults
  rw [markedTokens_append, markedTokens_map_shift] at htokens
  rw [lexErrors_marks, lexErrors_marks, lex_marks, htext, hfaults, htokens, hsize, lex_marks a,
    lex_marks b]
  cases markedFaults (marks 0 a.toList) <;> cases markedFaults (marks 0 b.toList) <;> simp
  rfl

/-- A comment in the first line and a lone backslash in the second. -/
theorem lex_append_line_comment :
    '\r' ∉ "x // \"".toList ∧ (∀ e ∈ lexErrors "x // \"", e.fault ≠ .unclosedComment) ∧
      lex ("x // \"" ++ "\n" ++ "y \\") = .error [⟨.loneBackslash, ⟨9, 10⟩⟩] := by
  have hreturn : '\r' ∉ "x // \"".toList := by decide
  have hclosed : ∀ e ∈ lexErrors "x // \"", e.fault ≠ .unclosedComment := by decide +kernel
  refine ⟨hreturn, hclosed, ?_⟩
  rw [lex_append_line "x // \"" "y \\" hreturn hclosed]
  decide +kernel

end Contracts
