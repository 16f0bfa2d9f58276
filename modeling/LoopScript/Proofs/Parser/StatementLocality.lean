/-
# LoopScript.Proofs.Parser.StatementLocality — the first diagnostic of a statement is settled where it stands

`LoopScript.Proofs.Parser.Locality` goes on here with statements, blocks and clauses. There is one
addition. A reading may find further diagnostics after its first one, and may also spend its budget on
them, so it is taken for its first diagnostic (`reply`) and compared with the sequence of its parts only
up to that (`reply_bind`).

The tokens of a line, of a body or of a clause that has begun are completed with what the grammar asks for
next: an assigned value, a closing brace, an empty block.
-/
import LoopScript.Proofs.Parser.Locality

namespace LoopScript

set_option autoImplicit false

namespace Parser

open Grammar

variable {stop : Position} {α β : Type}

/-! ## Readings as replies -/

/-- A reading as a reply: its first diagnostic, or its value if it has none. -/
def reply : Option (Reading α) → Reply (Option α)
  | none => .exhausted
  | some ⟨value, [], rest⟩ => .ok value rest
  | some ⟨_, error :: _, rest⟩ => .fail error rest

theorem reply_eq_ok {r : Option (Reading α)} {value : Option α} {rest : List Token}
    (done : reply r = .ok value rest) : r = some ⟨value, [], rest⟩ := by
  match r with
  | none => cases done
  | some ⟨_, [], _⟩ =>
      cases done
      rfl
  | some ⟨_, _ :: _, _⟩ => cases done

theorem reply_map (f : Option α → Option β) (r : Option (Reading α)) :
    reply (r.map fun r => { r with value := f r.value }) = (reply r).map f := by
  match r with
  | none => rfl
  | some ⟨_, [], _⟩ => rfl
  | some ⟨_, _ :: _, _⟩ => rfl

theorem reply_ofReply (make : α → β) (r : Reply α) :
    reply (Reading.ofReply r make) = r.map fun value => some (make value) := by
  cases r <;> rfl

/-- A reading that goes on after a failure still reports the failure first. -/
theorem reply_bind {r : Option (Reading α)} {next : Reading α → Option (Reading β)}
    {G : Option α → List Token → Reply (Option β)}
    (clean : ∀ value rest, (reply (next ⟨value, [], rest⟩)).Follows (G value rest))
    (keeps : ∀ x y, next x = some y → ∃ more, y.errors = x.errors ++ more) :
    (reply (r.bind next)).Follows ((reply r).andThen G) := by
  match r with
  | none => trivial
  | some ⟨value, [], rest⟩ => exact clean value rest
  | some ⟨value, error :: others, rest⟩ =>
      rw [Option.bind_some]
      cases found : next ⟨value, error :: others, rest⟩ with
      | none => trivial
      | some y =>
          obtain ⟨more, errors⟩ := keeps _ _ found
          obtain ⟨last, _, after⟩ := y
          cases errors
          exact ⟨rest, rfl⟩

/-! ## Lines, blocks and clauses -/

def IsLine (ts : List Token) : Prop := ∃ one, Line ts one

def IsLines (ts : List Token) : Prop := ∃ p, Lines ts p

def IsBlock (ts : List Token) : Prop :=
  ∃ body, ∀ opening : Token, opening.kind = .openBrace → Block (opening :: ts) body opening.pos

def IsClause (ts : List Token) : Prop := ∃ c, Grammar.Clause ts c

def IsAlternative (ts : List Token) : Prop := ∃ s, Alternative ts s

theorem isBlock_of_lines {ts : List Token} (lines : IsLines ts) :
    IsBlock (ts ++ [filler .closeBrace "\x7d"]) := by
  obtain ⟨p, derived⟩ := lines
  exact ⟨p, fun opening brace => .braces brace derived rfl⟩

theorem statement_taken {b : Nat} {t : Token} {ts taken rest : List Token} {value : Option Stmt}
    (read : reply (statement stop b (t :: ts)) = .ok value rest) (split : t :: ts = taken ++ rest) :
    Line taken value.toList := by
  obtain ⟨first, same, line⟩ := statement_sound (reply_eq_ok read) rfl
  rwa [List.append_cancel_right (split.symm.trans same)]

theorem statements_taken {nested : Bool} {b : Nat} {taken rest : List Token} {value : Option (List Stmt)}
    (read : reply (statements stop nested b (taken ++ rest)) = .ok value rest) : IsLines taken := by
  obtain ⟨first, p, same, -, lines, -⟩ := statements_sound (reply_eq_ok read) rfl
  rw [List.append_cancel_right same]
  exact ⟨p, lines⟩

theorem block_taken {b : Nat} {opening : Token} {taken rest : List Token} {value : Option (List Stmt)}
    (read : reply (block stop b (taken ++ rest)) = .ok value rest) (brace : opening.kind = .openBrace) :
    ∃ body, value = some body ∧ Block (opening :: taken) body opening.pos := by
  obtain ⟨first, body, same, found, derived⟩ := block_sound (reply_eq_ok read) rfl brace
  rw [List.append_cancel_right same]
  exact ⟨body, found, derived⟩

/-! ## Readings in two steps -/

/-- What follows the statements of a block: its closing brace. -/
def closeBlock (stop : Position) (body : Option (List Stmt)) (ts : List Token) : Reply (Option (List Stmt)) :=
  match ts with
  | _ :: rest => .ok body rest
  | [] => .fail (expectedAt stop .closeBrace []) []

/-- What follows the body of a clause: an alternative, or nothing. -/
def clauseOther (stop : Position) (condition : Expr) (pos : Position) (body : Option (List Stmt)) (b : Nat)
    (ts : List Token) : Reply (Option Clause) :=
  match body with
  | none => .ok none ts
  | some stmts =>
      match ts with
      | word :: after =>
          if word.kind = .elseWord then
            (reply (alternative stop b after)).map
              (Option.map fun s => ⟨condition, stmts, pos, some s⟩)
          else .ok (some ⟨condition, stmts, pos, none⟩) ts
      | [] => .ok (some ⟨condition, stmts, pos, none⟩) ts

/-- What follows the condition of a clause: its body, and what follows that. -/
def clauseBody (stop : Position) (condition : Expr) (b : Nat) (ts : List Token) : Reply (Option Clause) :=
  match ts with
  | t :: rest =>
      if t.kind = .openBrace then
        (reply (block stop b rest)).andThen fun body rest => clauseOther stop condition t.pos body b rest
      else .fail (expectedAt stop .openBrace ts) ts
  | [] => .fail (expectedAt stop .openBrace ts) ts

theorem statements_follows {nested : Bool} {b : Nat} {t : Token} {ts : List Token}
    (goesOn : ¬ (nested = true ∧ t.kind = .closeBrace)) :
    (reply (statements stop nested (b + 1) (t :: ts))).Follows
      ((reply (statement stop b (t :: ts))).andThen fun one rest =>
        (reply (statements stop nested b rest)).map fun more => some (one.toList ++ more.getD [])) := by
  simp only [statements, goesOn, if_false]
  refine reply_bind ?_ ?_
  · intro value rest
    dsimp only
    cases statements stop nested b rest with
    | none => trivial
    | some more =>
        obtain ⟨value, errors, after⟩ := more
        cases errors with
        | nil => rfl
        | cons error others => exact ⟨after, rfl⟩
  · intro x y found
    obtain ⟨more, -, same⟩ := Option.bind_eq_some_iff.mp found
    cases same
    exact ⟨more.errors, rfl⟩

theorem block_follows {b : Nat} {ts : List Token} :
    (reply (block stop (b + 1) ts)).Follows
      ((reply (statements stop true b ts)).andThen fun body rest => closeBlock stop body rest) := by
  simp only [block]
  refine reply_bind ?_ ?_
  · intro value rest
    cases rest with
    | nil => exact ⟨_, rfl⟩
    | cons closing after => rfl
  · intro x y found
    split at found
    · cases found
      exact ⟨[], (List.append_nil _).symm⟩
    · cases found
      exact ⟨_, rfl⟩

theorem clause_follows {b : Nat} {ts : List Token} :
    (reply (clause stop (b + 1) ts)).Follows
      ((expression stop b 0 ts).andThen fun condition rest => clauseBody stop condition b rest) := by
  simp only [clause]
  cases expression stop b 0 ts with
  | exhausted => trivial
  | fail error rest => exact ⟨rest, rfl⟩
  | ok condition rest =>
      cases rest with
      | nil => exact ⟨_, rfl⟩
      | cons t rest =>
          simp only [Reply.andThen, clauseBody]
          by_cases brace : t.kind = .openBrace
          · simp only [brace, if_true]
            refine reply_bind ?_ ?_
            -- A body without a diagnostic leaves the choice between an alternative and none.
            · intro value rest
              cases value with
              | none => rfl
              | some stmts =>
                  cases rest with
                  | nil => rfl
                  | cons word after =>
                      by_cases other : word.kind = .elseWord
                      · simp only [clauseOther, other, if_true]
                        cases alternative stop b after with
                        | none => trivial
                        | some reading =>
                            obtain ⟨_, errors, last⟩ := reading
                            cases errors with
                            | nil => rfl
                            | cons error more => exact ⟨last, rfl⟩
                      · simp only [clauseOther, other, if_false]
                        rfl
            -- In every case the diagnostics of the body come first.
            · intro x y found
              split at found
              · cases found
                exact ⟨[], (List.append_nil _).symm⟩
              · split at found
                · split at found
                  · obtain ⟨last, -, same⟩ := Option.bind_eq_some_iff.mp found
                    cases same
                    exact ⟨last.errors, rfl⟩
                  · cases found
                    exact ⟨[], (List.append_nil _).symm⟩
                · cases found
                  exact ⟨[], (List.append_nil _).symm⟩
          · simp only [brace, if_false]
            exact ⟨_, rfl⟩

/-! ## Settled readings -/

theorem closeBlock_settles {taken : List Token} (lines : IsLines taken) (body : Option (List Stmt))
    (rest : List Token) :
    Settles stop (fun us => IsBlock (taken ++ us)) (fun _ => closeBlock stop body) rest
      (closeBlock stop body rest) := by
  cases rest with
  | cons closing after => exact ⟨[closing], rfl, fun _ _ _ => .of_eq rfl⟩
  | nil =>
      refine ⟨[], [], rfl, rfl, ⟨_, isBlock_of_lines lines⟩, fun _ other heads value after done => ?_⟩
      rw [List.head?_eq_none_iff.mp heads] at done
      cases done

theorem clauseOther_settles {b : Nat} {condition : Expr} {stmts : List Stmt} {pos : Position}
    {first braces : List Token} (test : Expression .whole first condition) (body : Block braces stmts pos)
    (rest : List Token)
    (others : ∀ ts, Settles stop IsAlternative (fun c us => reply (alternative stop c us)) ts
      (reply (alternative stop b ts))) :
    Settles stop (fun us => IsClause (first ++ braces ++ us))
      (fun c => clauseOther stop condition pos (some stmts) c) rest
      (clauseOther stop condition pos (some stmts) b rest) := by
  by_cases other : StartsWith .elseWord rest
  · obtain ⟨word, after, rfl, kind⟩ := other
    have goesOn : ∀ c us, clauseOther stop condition pos (some stmts) c (word :: us) =
        (reply (alternative stop c us)).map (Option.map fun s => ⟨condition, stmts, pos, some s⟩) :=
      fun c us => if_pos kind
    rw [goesOn]
    refine ((others after).map _).step [word] (.of_eq rfl) (fun c us _ => ⟨c, .of_eq (goesOn c us)⟩) ?_
    rintro us ⟨s, derived⟩
    exact ⟨_, .otherwise test body kind derived⟩
  · have ends : ∀ c us, us.head? = rest.head? → clauseOther stop condition pos (some stmts) c us =
        .ok (some ⟨condition, stmts, pos, none⟩) us := by
      intro c us heads
      cases us with
      | nil => rfl
      | cons word after => exact if_neg fun kind => other (startsWith_of_head heads kind)
    rw [ends b rest rfl]
    exact ⟨[], rfl, fun c us heads => .of_eq (ends c us heads)⟩

def emptyBlock : List Token := [filler .openBrace "\x7b", filler .closeBrace "\x7d"]

theorem block_empty : Block emptyBlock [] .nowhere := .braces rfl .nil rfl

theorem clauseBody_settles {b : Nat} {condition : Expr} {first : List Token}
    (test : Expression .whole first condition) (rest : List Token)
    (blocks : ∀ ts, Settles stop IsBlock (fun c us => reply (block stop c us)) ts (reply (block stop b ts)))
    (others : ∀ ts, Settles stop IsAlternative (fun c us => reply (alternative stop c us)) ts
      (reply (alternative stop b ts))) :
    Settles stop (fun us => IsClause (first ++ us)) (clauseBody stop condition) rest
      (clauseBody stop condition b rest) := by
  by_cases brace : StartsWith .openBrace rest
  · obtain ⟨t, after, rfl, kind⟩ := brace
    have goesOn : ∀ c us, clauseBody stop condition c (t :: us) = (reply (block stop c us)).andThen
        fun body rest => clauseOther stop condition t.pos body c rest := fun c us => if_pos kind
    have inner : Settles stop (fun us => IsClause (first ++ t :: us))
        (fun c us => (reply (block stop c us)).andThen
          fun body rest => clauseOther stop condition t.pos body c rest) after
        ((reply (block stop b after)).andThen
          fun body rest => clauseOther stop condition t.pos body b rest) := by
      refine (blocks after).andThen ?_ ?_
      · rintro value taken rest read rfl
        obtain ⟨body, rfl, derived⟩ := block_taken read kind
        have settled := clauseOther_settles test derived rest others
        simpa only [List.append_assoc, List.cons_append] using settled
      · rintro us ⟨body, derived⟩
        exact ⟨[], _, by rw [List.append_nil]; exact .plain test (derived t kind)⟩
    rw [goesOn]
    exact inner.step [t] (.of_eq rfl) (fun c us _ => ⟨c, .of_eq (goesOn c us)⟩) fun us fits => fits
  · have refused : ∀ c us, us.head? = rest.head? →
        clauseBody stop condition c us = .fail (expectedAt stop .openBrace us) us := by
      intro c us heads
      cases us with
      | nil => rfl
      | cons t after => exact if_neg fun kind => brace (startsWith_of_head heads kind)
    rw [refused b rest rfl]
    refine ⟨[], rest, rfl, rfl, ⟨emptyBlock, _, .plain test block_empty⟩, ?_⟩
    intro c us heads value after done
    rw [List.nil_append, refused c us heads] at done
    cases done

theorem statement_refuses {b : Nat} {t : Token} {ts : List Token} (noSemicolon : t.kind ≠ .semicolon)
    (noLoop : t.kind ≠ .loopWord) (noIf : t.kind ≠ .ifWord) (noName : t.kind ≠ .identifier) :
    statement stop (b + 1) (t :: ts) = some ⟨none, [unexpectedAt stop (t :: ts)], ts⟩ := by
  simp only [statement]

theorem statement_nameless {b : Nat} {t : Token} {ts : List Token} (kind : t.kind = .identifier)
    (noEquals : ∀ next ∈ ts.head?, next.kind ≠ .assign) (noParen : NoParen ts) :
    statement stop (b + 1) (t :: ts) = some ⟨none, [expectedAt stop .assignOrCall ts], ts⟩ := by
  simp only [statement, kind]
  cases ts with
  | nil => rfl
  | cons next rest => simp only [noEquals next rfl, noParen next rfl, if_false]

/-! ### One lemma for each way to begin a statement -/

/-- A name that is neither assigned to nor called is refused behind the name. -/
theorem nameless_settles {b : Nat} {t : Token} {ts : List Token} (kind : t.kind = .identifier)
    (noEquals : ∀ next ∈ ts.head?, next.kind ≠ .assign) (noParen : NoParen ts) :
    Settles stop IsLine (fun c us => reply (statement stop c us)) (t :: ts)
      (reply (statement stop (b + 1) (t :: ts))) := by
  rw [statement_nameless kind noEquals noParen]
  refine Settles.refusal [t] [filler .assign "=", filler .null "null"] rfl ?_ (fun _ => rfl) ?_
  · obtain ⟨e, derived⟩ := isExpression_null 0
    exact ⟨_, .assignment kind rfl derived .nothing⟩
  · intro c us heads
    rw [List.cons_append, List.nil_append, statement_nameless kind (heads ▸ noEquals)
      fun next first => noParen next (heads ▸ first)]
    exact ⟨_, _, rfl⟩

theorem assignment_settles {b : Nat} {t sign : Token} {rest : List Token} (kind : t.kind = .identifier)
    (equals : sign.kind = .assign) :
    Settles stop IsLine (fun c us => reply (statement stop c us)) (t :: sign :: rest)
      (reply (statement stop (b + 1) (t :: sign :: rest))) := by
  have read : ∀ c us, reply (statement stop (c + 1) (t :: sign :: us)) =
      (expression stop c 0 us).map fun e => some (.assign t.text e t.pos) := by
    intro c us
    simp only [statement, kind, equals, if_true, reply_ofReply]
  apply ((expression_settles b 0 rest).map _).behind [t, sign] (fun _ => rfl) read
  rintro us ⟨e, derived⟩
  have line := Line.assignment kind equals derived .nothing
  rw [List.append_nil] at line
  exact ⟨_, line⟩

theorem call_settles {b : Nat} {t sign : Token} {rest : List Token} (kind : t.kind = .identifier)
    (parenthesis : sign.kind = .openParen) :
    Settles stop IsLine (fun c us => reply (statement stop c us)) (t :: sign :: rest)
      (reply (statement stop (b + 1) (t :: sign :: rest))) := by
  have read : ∀ c us, reply (statement stop (c + 1) (t :: sign :: us)) =
      (arguments stop c us).map fun args => some (.call t.text args t.pos) := by
    intro c us
    simp only [statement, kind, parenthesis, reduceCtorEq, if_false, if_true, reply_ofReply]
  apply ((arguments_settles b rest).map _).behind [t, sign] (fun _ => rfl) read
  rintro us ⟨args, call⟩
  have line := Line.call (call t sign kind parenthesis) .nothing
  rw [List.append_nil] at line
  exact ⟨_, line⟩

/-- A statement that is read as a clause behind its first word. -/
theorem worded_settles {b : Nat} {t : Token} {ts : List Token} (make : Clause → Stmt)
    (read : ∀ c us, reply (statement stop (c + 1) (t :: us)) =
      (reply (clause stop c us)).map (Option.map make))
    (line : ∀ us, IsClause us → IsLine (t :: us))
    (clauses : Settles stop IsClause (fun c us => reply (clause stop c us)) ts (reply (clause stop b ts))) :
    Settles stop IsLine (fun c us => reply (statement stop c us)) (t :: ts)
      (reply (statement stop (b + 1) (t :: ts))) :=
  (clauses.map _).behind [t] (fun _ => rfl) read line

theorem other_settles {b : Nat} {t : Token} {ts : List Token} (noSemicolon : t.kind ≠ .semicolon)
    (noLoop : t.kind ≠ .loopWord) (noIf : t.kind ≠ .ifWord) (noName : t.kind ≠ .identifier) :
    Settles stop IsLine (fun c us => reply (statement stop c us)) (t :: ts)
      (reply (statement stop (b + 1) (t :: ts))) := by
  rw [statement_refuses noSemicolon noLoop noIf noName]
  refine Settles.refusal [] [filler .semicolon ";"] rfl ⟨[], .lone rfl⟩ (fun _ => rfl) ?_
  intro c us heads
  obtain ⟨others, rfl⟩ := List.head?_eq_some_iff.mp heads
  rw [List.nil_append, statement_refuses noSemicolon noLoop noIf noName]
  exact ⟨_, _, rfl⟩

mutual

theorem statement_settles : ∀ (b : Nat) (ts : List Token),
    Settles stop IsLine (fun c us => reply (statement stop c us)) ts (reply (statement stop b ts))
  | 0, _ => trivial
  | b + 1, [] => by
      refine Settles.value [] (fun _ => rfl) fun c us heads => ?_
      rw [List.head?_eq_none_iff.mp heads]
      rfl
  | b + 1, t :: ts => by
      by_cases semicolon : t.kind = .semicolon
      · have read : ∀ c us, statement stop (c + 1) (t :: us) = some ⟨none, [], us⟩ := by
          intro c us
          simp only [statement, semicolon]
        rw [read]
        exact Settles.value [t] (fun _ => rfl) fun c us _ => congrArg reply (read c us)
      by_cases loop : t.kind = .loopWord
      · refine worded_settles (fun c => .loop t.text c.condition c.body c.bodyPos c.alternative t.pos)
          (fun c us => ?_) ?_ (clause_settles b ts)
        · simp only [statement, loop, reply_map]
        · rintro us ⟨c, derived⟩
          exact ⟨_, .loop loop derived⟩
      by_cases branch : t.kind = .ifWord
      · refine worded_settles (fun c => .branch c.condition c.body c.bodyPos c.alternative t.pos)
          (fun c us => ?_) ?_ (clause_settles b ts)
        · simp only [statement, branch, reply_map]
        · rintro us ⟨c, derived⟩
          exact ⟨_, .branch branch derived⟩
      by_cases name : t.kind = .identifier
      · cases ts with
        | nil => exact nameless_settles name nofun nofun
        | cons sign rest =>
            by_cases equals : sign.kind = .assign
            · exact assignment_settles name equals
            by_cases parenthesis : sign.kind = .openParen
            · exact call_settles name parenthesis
            apply nameless_settles name
            · intro next first
              cases first
              exact equals
            · intro next first
              cases first
              exact parenthesis
      · exact other_settles semicolon loop branch name

/-- Statements one after the other: the first one that fails settles where. -/
theorem statements_settles (nested : Bool) : ∀ (b : Nat) (ts : List Token),
    Settles stop IsLines (fun c us => reply (statements stop nested c us)) ts
      (reply (statements stop nested b ts))
  | 0, _ => trivial
  | b + 1, [] => by
      refine Settles.value [] (fun _ => rfl) fun c us heads => ?_
      rw [List.head?_eq_none_iff.mp heads]
      rfl
  | b + 1, t :: ts => by
      by_cases closing : nested = true ∧ t.kind = .closeBrace
      · rw [statements, if_pos closing]
        refine Settles.value [] (fun _ => rfl) fun c us heads => ?_
        obtain ⟨others, rfl⟩ := List.head?_eq_some_iff.mp heads
        rw [List.nil_append, statements, if_pos closing]
        rfl
      · have inner : Settles stop IsLines
            (fun c us => (reply (statement stop c us)).andThen fun one rest =>
              (reply (statements stop nested c rest)).map fun more => some (one.toList ++ more.getD []))
            (t :: ts)
            ((reply (statement stop b (t :: ts))).andThen fun one rest =>
              (reply (statements stop nested b rest)).map fun more => some (one.toList ++ more.getD [])) := by
          refine (statement_settles b (t :: ts)).andThen ?_ ?_
          · intro one taken rest read split
            have line := statement_taken read split
            refine ((statements_settles nested b rest).map _).step [] (.of_eq rfl)
              (fun c us _ => ⟨c, .of_eq rfl⟩) ?_
            rintro us ⟨p, lines⟩
            exact ⟨_, .cons line lines⟩
          · rintro us ⟨one, line⟩
            exact ⟨[], _, .cons line .nil⟩
        refine inner.next [] (statements_follows closing) (fun _ => rfl) ?_ fun us fits => fits
        intro c us heads
        obtain ⟨others, rfl⟩ := List.head?_eq_some_iff.mp heads
        exact statements_follows closing

theorem block_settles : ∀ (b : Nat) (ts : List Token),
    Settles stop IsBlock (fun c us => reply (block stop c us)) ts (reply (block stop b ts))
  | 0, _ => trivial
  | b + 1, ts => by
      have inner : Settles stop IsBlock
          (fun c us => (reply (statements stop true c us)).andThen fun body rest => closeBlock stop body rest)
          ts ((reply (statements stop true b ts)).andThen fun body rest => closeBlock stop body rest) := by
        refine (statements_settles true b ts).andThen ?_ ?_
        · rintro body taken rest read rfl
          exact closeBlock_settles (statements_taken read) body rest
        · exact fun us lines => ⟨_, isBlock_of_lines lines⟩
      exact inner.next [] block_follows (fun _ => rfl) (fun c us _ => block_follows) fun us fits => fits

theorem clause_settles : ∀ (b : Nat) (ts : List Token),
    Settles stop IsClause (fun c us => reply (clause stop c us)) ts (reply (clause stop b ts))
  | 0, _ => trivial
  | b + 1, ts => by
      have inner : Settles stop IsClause
          (fun c us => (expression stop c 0 us).andThen
            fun condition rest => clauseBody stop condition c rest) ts
          ((expression stop b 0 ts).andThen fun condition rest => clauseBody stop condition b rest) := by
        refine (expression_settles b 0 ts).andThen ?_ ?_
        · rintro condition taken rest read rfl
          exact clauseBody_settles (expression_taken read).1 rest (fun us => block_settles b us)
            fun us => alternative_settles b us
        · rintro us ⟨condition, derived⟩
          exact ⟨emptyBlock, _, .plain derived block_empty⟩
      exact inner.next [] clause_follows (fun _ => rfl) (fun c us _ => clause_follows) fun us fits => fits

theorem alternative_settles : ∀ (b : Nat) (ts : List Token),
    Settles stop IsAlternative (fun c us => reply (alternative stop c us)) ts
      (reply (alternative stop b ts))
  | 0, _ => trivial
  | b + 1, [] => by
      refine Settles.refusal [] emptyBlock rfl ⟨_, .block block_empty⟩ (fun _ => rfl) ?_
      intro c us heads
      rw [List.head?_eq_none_iff.mp heads]
      exact ⟨_, _, rfl⟩
  | b + 1, t :: ts => by
      by_cases brace : t.kind = .openBrace
      · have read : ∀ c us, reply (alternative stop (c + 1) (t :: us)) =
            (reply (block stop c us)).map (Option.map fun body => .block body t.pos) := by
          intro c us
          simp only [alternative, brace, reply_map]
        apply ((block_settles b ts).map _).behind [t] (fun _ => rfl) read
        rintro us ⟨body, derived⟩
        exact ⟨_, .block (derived t brace)⟩
      by_cases branch : t.kind = .ifWord
      · have read : ∀ c us, reply (alternative stop (c + 1) (t :: us)) =
            (reply (clause stop c us)).map (Option.map fun c =>
              .branch c.condition c.body c.bodyPos c.alternative t.pos) := by
          intro c us
          simp only [alternative, branch, reply_map]
        apply ((clause_settles b ts).map _).behind [t] (fun _ => rfl) read
        rintro us ⟨c, derived⟩
        exact ⟨_, .branch branch derived⟩
      · have refused : ∀ c us, alternative stop (c + 1) (t :: us) =
            some ⟨none, [expectedAt stop .elseBranch (t :: us)], us⟩ := by
          intro c us
          simp only [alternative]
        rw [refused]
        refine Settles.refusal [] emptyBlock rfl ⟨_, .block block_empty⟩ (fun _ => rfl) ?_
        intro c us heads
        obtain ⟨others, rfl⟩ := List.head?_eq_some_iff.mp heads
        exact ⟨_, _, congrArg reply (refused c others)⟩

end

end Parser

end LoopScript
