/-
# LoopScript.Proofs.Relocation — nothing but positions depends on positions

A map of positions carries over to glyphs, tokens and trees (`relocate`). Cutting a source into tokens
and deriving a tree from them only hand positions on, so both commute with every such map
(`tokensOf_relocate`, `Lines.relocate`). The map that matters most is `Position.shift`, which moves a
source down by some lines: a text that is read further down gives the same glyphs, shifted
(`place_shift`).
-/
import LoopScript.Proofs.Grammar
import LoopScript.Token.Lexer

namespace LoopScript

set_option autoImplicit false

/-! ## Positions and glyphs -/

namespace Position

/-- The same column some lines further down. -/
def shift (lines : Int) (p : Position) : Position := ⟨p.line + lines, p.column⟩

theorem after_shift (lines : Int) (p : Position) (c : Char) :
    (p.shift lines).after c = (p.after c).shift lines := by
  unfold after shift
  split
  · simp only [Position.mk.injEq, and_true]
    omega
  · rfl

/-- Reading on from further down ends as much further down. -/
theorem foldl_after_shift (lines : Int) (rs : List Rune) : ∀ p : Position,
    rs.foldl (fun p r => p.after r.char) (p.shift lines) =
      (rs.foldl (fun p r => p.after r.char) p).shift lines := by
  induction rs with
  | nil => exact fun _ => rfl
  | cons r rest ih =>
      intro p
      rw [List.foldl_cons, List.foldl_cons, after_shift, ih]

/-- The line moves on by the line feeds that are read. -/
theorem line_foldl_after (rs : List Rune) : ∀ p : Position,
    (rs.foldl (fun p r => p.after r.char) p).line = p.line + rs.countP fun r => r.char = '\n' := by
  induction rs with
  | nil => exact fun p => (Int.add_zero _).symm
  | cons r rest ih =>
      intro p
      rw [List.foldl_cons, ih, List.countP_cons]
      by_cases feed : r.char = '\n'
      · simp only [after, feed, if_true, decide_true]
        omega
      · simp only [after, feed, if_false, decide_false, Bool.false_eq_true]
        omega

end Position

namespace Glyph

/-- The same glyph at another position. -/
def relocate (f : Position → Position) (g : Glyph) : Glyph := { g with pos := f g.pos }

theorem bytesOf_relocate (f : Position → Position) (gs : List Glyph) :
    bytesOf (gs.map (relocate f)) = bytesOf gs := by
  rw [bytesOf, List.flatMap_map]
  rfl

theorem place_shift (lines : Int) : ∀ (rs : List Rune) (p : Position),
    place (p.shift lines) rs = (place p rs).map (relocate (Position.shift lines))
  | [], _ => rfl
  | r :: rest, p => by
      rw [place, place, Position.after_shift, place_shift lines rest, List.map_cons]
      rfl

theorem place_append : ∀ (rs ss : List Rune) (p : Position),
    place p (rs ++ ss) = place p rs ++ place (rs.foldl (fun p r => p.after r.char) p) ss
  | [], _, _ => rfl
  | r :: rest, ss, p => by
      rw [List.cons_append, place, place, place_append rest ss, List.foldl_cons, List.cons_append]

end Glyph

/-! ## Tokens -/

namespace Token

def relocate (f : Position → Position) (t : Token) : Token := { t with pos := f t.pos }

def relocateRead (f : Position → Position) (taken : Token × List Glyph) : Token × List Glyph :=
  (taken.1.relocate f, taken.2.map (Glyph.relocate f))

variable (f : Position → Position)

theorem skipBlanksIn_relocate : ∀ (gs : List Glyph) (comment : Bool),
    skipBlanksIn comment (gs.map (Glyph.relocate f)) =
      (skipBlanksIn comment gs).map (Glyph.relocate f)
  | [], _ => by simp only [List.map_nil, skipBlanksIn]
  | g :: rest, true => by
      rw [List.map_cons, skipBlanksIn, skipBlanksIn]
      exact skipBlanksIn_relocate rest _
  | g :: rest, false => by
      rw [List.map_cons, skipBlanksIn, skipBlanksIn]
      by_cases blank : isBlank g.char
      · rw [if_pos blank, if_pos (show isBlank (g.relocate f).char from blank)]
        exact skipBlanksIn_relocate rest false
      · rw [if_neg blank, if_neg (show ¬ isBlank (g.relocate f).char from blank)]
        by_cases hash : g.char = '#'
        · rw [if_pos hash, if_pos (show (g.relocate f).char = '#' from hash)]
          exact skipBlanksIn_relocate rest true
        · rw [if_neg hash, if_neg (show ¬ (g.relocate f).char = '#' from hash), List.map_cons]

theorem take_relocate (kind : Kind) (g : Glyph) (more rest : List Glyph) :
    take kind (g.relocate f) (more.map (Glyph.relocate f)) (rest.map (Glyph.relocate f)) =
      relocateRead f (take kind g more rest) := by
  rw [take, ← List.map_cons, Glyph.bytesOf_relocate]
  rfl

theorem readWord_relocate (g : Glyph) (rest : List Glyph) :
    readWord (g.relocate f) (rest.map (Glyph.relocate f)) = relocateRead f (readWord g rest) := by
  rw [readWord, List.takeWhile_map, List.dropWhile_map, ← List.map_cons, Glyph.bytesOf_relocate]
  exact take_relocate f _ g _ _

theorem readNumber_relocate (g : Glyph) (rest : List Glyph) :
    readNumber (g.relocate f) (rest.map (Glyph.relocate f)) = relocateRead f (readNumber g rest) := by
  have same : (fun h : Glyph => isDigit h.char) ∘ Glyph.relocate f = fun h => isDigit h.char := rfl
  rw [readNumber, readNumber, List.takeWhile_map, List.dropWhile_map, same]
  cases rest.dropWhile fun h => isDigit h.char with
  | nil => exact take_relocate f .integer g _ []
  | cons point more =>
      cases more with
      | nil => exact take_relocate f .integer g _ [point]
      | cons d after =>
          by_cases fraction : point.char = '.' ∧ isDigit d.char
          · simp only [List.map_cons]
            rw [if_pos fraction, if_pos (show (point.relocate f).char = '.' ∧
              isDigit (d.relocate f).char from fraction), List.takeWhile_map, List.dropWhile_map, same,
              ← List.map_cons, ← List.map_cons, ← List.map_append]
            exact take_relocate f .float g _ _
          · simp only [List.map_cons]
            rw [if_neg fraction, if_neg (show ¬ ((point.relocate f).char = '.' ∧
              isDigit (d.relocate f).char) from fraction), ← List.map_cons, ← List.map_cons]
            exact take_relocate f .integer g _ _

theorem readString_relocate (g : Glyph) (rest : List Glyph) :
    readString (g.relocate f) (rest.map (Glyph.relocate f)) = relocateRead f (readString g rest) := by
  have same : (fun h : Glyph => h.char != g.char) ∘ Glyph.relocate f = fun h => h.char != g.char := rfl
  have quote : (g.relocate f).char = g.char := rfl
  rw [readString, readString, quote, List.takeWhile_map, List.dropWhile_map, same]
  cases rest.dropWhile fun h => h.char != g.char with
  | nil => rfl
  | cons closing after =>
      have closed : ([closing].map (Glyph.relocate f)) = [closing.relocate f] := rfl
      simp only [List.map_cons]
      rw [← closed, ← List.map_append]
      exact take_relocate f .string g _ after

theorem readEquals_relocate (double single : Kind) (g : Glyph) (rest : List Glyph) :
    readEquals double single (g.relocate f) (rest.map (Glyph.relocate f)) =
      relocateRead f (readEquals double single g rest) := by
  cases rest with
  | nil => exact take_relocate f single g [] []
  | cons h rest =>
      rw [List.map_cons, readEquals, readEquals]
      by_cases equals : h.char = '='
      · rw [if_pos equals, if_pos (show (h.relocate f).char = '=' from equals)]
        exact take_relocate f double g [h] rest
      · rw [if_neg equals, if_neg (show ¬ (h.relocate f).char = '=' from equals)]
        exact take_relocate f single g [] (h :: rest)

theorem read_relocate (g : Glyph) (rest : List Glyph) :
    read (g.relocate f) (rest.map (Glyph.relocate f)) = relocateRead f (read g rest) := by
  have char : (g.relocate f).char = g.char := rfl
  rw [read, read, char]
  split
  · exact take_relocate f _ g [] rest
  · exact readEquals_relocate f _ _ g rest
  · split
    · exact readString_relocate f g rest
    · split
      · exact readWord_relocate f g rest
      · split
        · exact readNumber_relocate f g rest
        · rfl

/-- What the tokens are does not depend on where the glyphs stand. -/
theorem tokensOf_relocate (gs : List Glyph) :
    tokensOf (gs.map (Glyph.relocate f)) = (tokensOf gs).map (relocate f) := by
  fun_induction tokensOf gs with
  | case1 gs done =>
      refine tokensOf_of_nil ?_
      rw [skipBlanks, skipBlanksIn_relocate, ← skipBlanks, done, List.map_nil]
  | case2 gs g rest found ih =>
      have moved : skipBlanks (gs.map (Glyph.relocate f)) =
          g.relocate f :: rest.map (Glyph.relocate f) := by
        rw [skipBlanks, skipBlanksIn_relocate, ← skipBlanks, found, List.map_cons]
      rw [tokensOf_of_cons moved, read_relocate, List.map_cons, ← ih]
      rfl

end Token

/-! ## Trees -/

def Expr.relocate (f : Position → Position) : Expr → Expr
  | .name id pos => .name id (f pos)
  | .literal kind text pos => .literal kind text (f pos)
  | .call callee args pos => .call callee (relocateAll f args) (f pos)
  | .binary level op left right pos => .binary level op (left.relocate f) (right.relocate f) (f pos)
  | .negation operand pos => .negation (operand.relocate f) (f pos)
where
  relocateAll (f : Position → Position) : List Expr → List Expr
    | [] => []
    | e :: rest => e.relocate f :: relocateAll f rest

theorem Expr.pos_relocate (f : Position → Position) (e : Expr) : (e.relocate f).pos = f e.pos := by
  cases e <;> rfl

def Stmt.relocate (f : Position → Position) : Stmt → Stmt
  | .assign target value pos => .assign target (value.relocate f) (f pos)
  | .call callee args pos => .call callee (Expr.relocate.relocateAll f args) (f pos)
  | .block body pos => .block (relocateAll f body) (f pos)
  | .loop word condition body bodyPos alternative pos =>
      .loop word (condition.relocate f) (relocateAll f body) (f bodyPos) (relocateOpt f alternative)
        (f pos)
  | .branch condition body bodyPos alternative pos =>
      .branch (condition.relocate f) (relocateAll f body) (f bodyPos) (relocateOpt f alternative) (f pos)
where
  relocateAll (f : Position → Position) : List Stmt → List Stmt
    | [] => []
    | s :: rest => s.relocate f :: relocateAll f rest
  relocateOpt (f : Position → Position) : Option Stmt → Option Stmt
    | none => none
    | some s => some (s.relocate f)

theorem Stmt.relocateAll_eq (f : Position → Position) : ∀ ss : List Stmt,
    Stmt.relocate.relocateAll f ss = ss.map (Stmt.relocate f)
  | [] => rfl
  | s :: rest => by rw [Stmt.relocate.relocateAll, relocateAll_eq f rest, List.map_cons]

mutual

theorem Expr.relocate_id : ∀ e : Expr, e.relocate id = e
  | .name _ _ => rfl
  | .literal _ _ _ => rfl
  | .call callee args pos => by rw [Expr.relocate, Expr.relocateAll_id args]; rfl
  | .binary level op left right pos => by
      rw [Expr.relocate, Expr.relocate_id left, Expr.relocate_id right]
      rfl
  | .negation operand pos => by rw [Expr.relocate, Expr.relocate_id operand]; rfl

theorem Expr.relocateAll_id : ∀ es : List Expr, Expr.relocate.relocateAll id es = es
  | [] => rfl
  | e :: rest => by rw [Expr.relocate.relocateAll, Expr.relocate_id e, Expr.relocateAll_id rest]

end

mutual

theorem Stmt.relocate_id : ∀ s : Stmt, s.relocate id = s
  | .assign target value pos => by rw [Stmt.relocate, Expr.relocate_id]; rfl
  | .call callee args pos => by rw [Stmt.relocate, Expr.relocateAll_id]; rfl
  | .block body pos => by rw [Stmt.relocate, Stmt.relocateAll_id body]; rfl
  | .loop word condition body bodyPos alternative pos => by
      rw [Stmt.relocate, Expr.relocate_id, Stmt.relocateAll_id body, Stmt.relocateOpt_id alternative]
      rfl
  | .branch condition body bodyPos alternative pos => by
      rw [Stmt.relocate, Expr.relocate_id, Stmt.relocateAll_id body, Stmt.relocateOpt_id alternative]
      rfl

theorem Stmt.relocateAll_id : ∀ ss : List Stmt, Stmt.relocate.relocateAll id ss = ss
  | [] => rfl
  | s :: rest => by rw [Stmt.relocate.relocateAll, Stmt.relocate_id s, Stmt.relocateAll_id rest]

theorem Stmt.relocateOpt_id : ∀ alternative : Option Stmt,
    Stmt.relocate.relocateOpt id alternative = alternative
  | none => rfl
  | some s => by rw [Stmt.relocate.relocateOpt, Stmt.relocate_id s]

end

namespace Grammar

variable (f : Position → Position)

mutual

theorem Expression.relocate {s : Stratum} {ts : List Token} {e : Expr} :
    Expression s ts e → Expression s (ts.map (Token.relocate f)) (e.relocate f)
  | .operand operand => .operand operand.relocate
  | .operation kind level left right => by
      rw [List.map_append, List.map_cons]
      exact .operation kind level left.relocate right.relocate
  | .plain primary => .plain primary.relocate
  | .negation bang operand => .negation bang operand.relocate
  | .constant constant => .constant constant
  | .name kind => .name kind
  | .call call => .call call.relocate
  | .group opening inner closing => by
      rw [List.cons_append, List.map_cons, List.map_append]
      exact .group opening inner.relocate closing

theorem Expressions.relocate {ts : List Token} {es : List Expr} :
    Expressions ts es → Expressions (ts.map (Token.relocate f)) (Expr.relocate.relocateAll f es)
  | .last e => .last e.relocate
  | .more e comma rest => by
      rw [List.map_append, List.map_cons]
      exact .more e.relocate comma rest.relocate

theorem Call.relocate {ts : List Token} {name : Token} {args : List Expr} :
    Call ts name args →
      Call (ts.map (Token.relocate f)) (name.relocate f) (Expr.relocate.relocateAll f args)
  | .empty name opening closing => .empty name opening closing
  | .arguments name opening args closing => by
      rw [List.cons_append, List.cons_append, List.map_cons, List.map_cons, List.map_append]
      exact .arguments name opening args.relocate closing

end

theorem Ending.relocate {ts : List Token} : Ending ts → Ending (ts.map (Token.relocate f))
  | .nothing => .nothing
  | .semicolon kind => .semicolon kind

def relocateClause (c : Parser.Clause) : Parser.Clause :=
  ⟨c.condition.relocate f, Stmt.relocate.relocateAll f c.body, f c.bodyPos,
    Stmt.relocate.relocateOpt f c.alternative⟩

mutual

theorem Line.relocate {ts : List Token} {ss : List Stmt} :
    Line ts ss → Line (ts.map (Token.relocate f)) (Stmt.relocate.relocateAll f ss)
  | .lone kind => .lone kind
  | .assignment name equals value ending => by
      rw [List.cons_append, List.cons_append, List.map_cons, List.map_cons, List.map_append]
      exact .assignment name equals (value.relocate f) (ending.relocate f)
  | .call call ending => by
      rw [List.map_append]
      exact .call (call.relocate f) (ending.relocate f)
  | @Line.branch word _ _ kind clause =>
      .branch (show (word.relocate f).kind = .ifWord from kind) clause.relocate
  | @Line.loop word _ _ kind clause =>
      .loop (show (word.relocate f).kind = .loopWord from kind) clause.relocate

theorem Lines.relocate {ts : List Token} {ss : List Stmt} :
    Lines ts ss → Lines (ts.map (Token.relocate f)) (Stmt.relocate.relocateAll f ss)
  | .nil => .nil
  | .cons line rest => by
      rw [List.map_append, Stmt.relocateAll_eq, List.map_append, ← Stmt.relocateAll_eq,
        ← Stmt.relocateAll_eq]
      exact .cons line.relocate rest.relocate

theorem Block.relocate {ts : List Token} {body : List Stmt} {pos : Position} :
    Block ts body pos →
      Block (ts.map (Token.relocate f)) (Stmt.relocate.relocateAll f body) (f pos)
  | .braces opening body closing => by
      rw [List.cons_append, List.map_cons, List.map_append]
      exact .braces opening body.relocate closing

theorem Clause.relocate {ts : List Token} {c : Parser.Clause} :
    Clause ts c → Clause (ts.map (Token.relocate f)) (relocateClause f c)
  | .plain condition body => by
      rw [List.map_append]
      exact .plain (condition.relocate f) body.relocate
  | .otherwise condition body word other => by
      rw [List.map_append, List.map_append, List.map_cons]
      exact .otherwise (condition.relocate f) body.relocate word other.relocate

theorem Alternative.relocate {ts : List Token} {s : Stmt} :
    Alternative ts s → Alternative (ts.map (Token.relocate f)) (s.relocate f)
  | .block block => .block block.relocate
  | @Alternative.branch word _ _ kind clause =>
      .branch (show (word.relocate f).kind = .ifWord from kind) clause.relocate

end

end Grammar

end LoopScript
