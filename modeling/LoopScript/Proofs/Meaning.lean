/-
# LoopScript.Proofs.Meaning — blanks and comments mean nothing

Two sources with the same tokens, wherever these stand, mean the same (`SameMeaning`): both are programs or
neither is, the trees are the same but for positions, and so are the runs, whatever the functions of the
host do (`sameMeaning_of_lexemes`). For tokens in increasing order it is no loss to say that the places of
the one source are mapped to those of the other (`exists_relocate`), and trees and runs only hand places on
(`LoopScript.Proofs.Relocation`, `LoopScript.Proofs.Host.Sealed`).

The texts with the tokens of a source are known if everything in it can be read: they are the layouts of
these tokens, which differ in blanks and comments alone (`LoopScript.Proofs.Token.Normal`). So none of these
affects what a source means, and each source can be brought into the form that has single spaces and no
comments (`normal_stable`).
-/
import LoopScript.Proofs.Host.Sealed
import LoopScript.Proofs.Token.Normal

namespace LoopScript

set_option autoImplicit false

/-- Two sources mean the same. The tokens of the second are those of the first at other places, and either
neither source is a program or both are. Then each node of the tree is at the place of its token, and the
two scripts run alike, with any functions of the host, with any budget and in any execution: they have the
same value and reach the same execution, and an error has the same cause and is moved along, or is the same
if a function of the host hands it on from another script. -/
def SameMeaning (a b : Text) : Prop :=
  ∃ f : Position → Position, Token.tokens b = (Token.tokens a).map (Token.relocate f) ∧
    match Script.compile a, Script.compile b with
    | .ok first, .ok second =>
        second.program = first.program.map (Stmt.relocate f) ∧
        ∀ (procedures : Procedures) (budget : Nat) (x : Execution),
          (first.runWith (procedures.toHost budget) budget x).CarriedBy
            (RuntimeError.Carried f (some b)) id (second.runWith (procedures.toHost budget) budget x)
    | .error _, .error _ => True
    | _, _ => False

namespace Token

/-- Tokens with the same lexemes are the same tokens at other places, if no two stand at one place. -/
theorem exists_relocate : ∀ {ts us : List Token}, ts.map lexeme = us.map lexeme →
    ts.Pairwise (fun s t => s.pos ≠ t.pos) → ∃ f, us = ts.map (relocate f)
  | [], us, same, _ => ⟨id, List.map_eq_nil_iff.mp same.symm⟩
  | t :: ts, us, same, distinct => by
      obtain ⟨u, others, rfl, kind, text, behind⟩ := Grammar.tokens_of_cons same.symm
      obtain ⟨apart, distinct⟩ := List.pairwise_cons.mp distinct
      obtain ⟨f, rfl⟩ := exists_relocate behind.symm distinct
      -- The place of the first token is new, so the map for the others is free there.
      refine ⟨fun p => if p = t.pos then u.pos else f p, ?_⟩
      have first : u = t.relocate fun p => if p = t.pos then u.pos else f p := by
        rw [relocate, if_pos rfl, ← show u.kind = t.kind from kind, ← show u.text = t.text from text]
      have rest : ts.map (relocate f) = ts.map (relocate fun p => if p = t.pos then u.pos else f p) := by
        refine List.map_congr_left fun s member => ?_
        rw [relocate, relocate, if_neg (apart s member).symm]
      rw [List.map_cons, ← first, ← rest]

theorem tokens_distinct (source : Text) : (tokens source).Pairwise fun s t => s.pos ≠ t.pos := by
  refine (tokens_increasing source).imp fun before same => ?_
  rw [same, Position.before_iff] at before
  omega

end Token

/-- A source with the tokens of a program at other places is that program with its nodes there. -/
theorem Script.compile_relocate {a b : Text} {f : Position → Position} {first : Script}
    (moved : Token.tokens b = (Token.tokens a).map (Token.relocate f))
    (compiled : Script.compile a = .ok first) :
    Script.compile b = .ok ⟨b, first.program.map (Stmt.relocate f)⟩ := by
  have lines := (Program.read_eq_ok.mp (compile_eq_ok.mp compiled).1).relocate f
  rw [← moved, Stmt.relocateAll_eq] at lines
  exact compile_eq_ok.mpr ⟨Program.read_eq_ok.mpr lines, rfl⟩

/-- What a source means is settled by its tokens without their places. -/
theorem sameMeaning_of_lexemes {a b : Text}
    (same : (Token.tokens a).map Token.lexeme = (Token.tokens b).map Token.lexeme) : SameMeaning a b := by
  obtain ⟨f, there⟩ := Token.exists_relocate same (Token.tokens_distinct a)
  obtain ⟨g, back⟩ := Token.exists_relocate same.symm (Token.tokens_distinct b)
  refine ⟨f, there, ?_⟩
  cases first : Script.compile a with
  | ok script =>
      rw [Script.compile_relocate there first]
      refine ⟨rfl, fun procedures budget x => ?_⟩
      have moved : Script.program ⟨b, script.program.map (Stmt.relocate f)⟩ =
          script.program.map (Stmt.relocate f) := rfl
      exact (procedures.toHost_sealed budget).runWith_carried moved budget x
  | error ds =>
      cases second : Script.compile b with
      | ok script =>
          rw [Script.compile_relocate back second] at first
          cases first
      | error ds => trivial

/-- **Blanks and comments mean nothing.** Let everything in a source be readable. Then its tokens with single
spaces between them are read as the same tokens, and the source and this normal form mean the same: their
trees differ in positions only, or neither has one. More generally, the texts with the tokens of the source
are the layouts of these tokens, with any blanks and comments around them, and all of them mean what the
source means. -/
theorem normal_stable {source : Text} (legal : Grammar.AllLegal (Token.tokens source)) :
    (Token.tokens (Token.normal source)).map Token.lexeme = (Token.tokens source).map Token.lexeme ∧
    SameMeaning source (Token.normal source) ∧
    ∀ other : Text,
      ((Token.tokens other).map Token.lexeme = (Token.tokens source).map Token.lexeme ↔
        Lexeme.Laid ((Token.tokens source).map Token.lexeme) other) ∧
      (Lexeme.Laid ((Token.tokens source).map Token.lexeme) other → SameMeaning source other) := by
  refine ⟨Token.lexemes_normal legal, ?_, fun other => ⟨Token.tokens_eq_iff_laid legal, fun laid => ?_⟩⟩
  · exact sameMeaning_of_lexemes (Token.lexemes_normal legal).symm
  · exact sameMeaning_of_lexemes ((Token.tokens_eq_iff_laid legal).mpr laid).symm

/-- A source without a blank where none is needed: a number and a name, signs of one and of two characters,
a string that holds a hash sign, the other quote, a brace and a byte that belongs to no character, and a
comment between two tokens. -/
def Token.dense : Text :=
  utf8 "until!(a==1.5)xor 7<b\x7bx='\"#\x7d" ++ [0xFF] ++ utf8 "';say(x)# 'done\n;\x7d"

/-- The dense source, its normal form, and what both mean. -/
theorem normal_stable_dense :
    Grammar.AllLegal (Token.tokens Token.dense) ∧
    Token.normal Token.dense = utf8 "until ! ( a == 1.5 ) xor 7 < b \x7b x = '\"#\x7d" ++ [0xFF] ++
      utf8 "' ; say ( x ) ; \x7d" ∧
    (Token.tokens (Token.normal Token.dense)).map Token.lexeme =
      (Token.tokens Token.dense).map Token.lexeme ∧
    SameMeaning Token.dense (Token.normal Token.dense) := by
  have legal : Grammar.AllLegal (Token.tokens Token.dense) := by decide +kernel
  obtain ⟨lexemes, meaning, -⟩ := normal_stable legal
  exact ⟨legal, by decide +kernel, lexemes, meaning⟩

end LoopScript
