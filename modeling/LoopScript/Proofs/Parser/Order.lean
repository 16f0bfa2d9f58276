/-
# LoopScript.Proofs.Parser.Order — diagnostics come in the order of the source, each with its line

Some diagnostics are about the token that reading has reached and some about the one behind it, and after
a failure reading goes on from wherever it was left, inside blocks as well as outside. It never goes back
all the same: the diagnostics of a source make up a way through its tokens (`Diagnostic.Trail`). The places
of tokens increase, and none is behind the end of the source (`not_before_of_mem_tokens`), so the places of
diagnostics do not decrease.

A diagnostic at the end of a source has a line to show as well, since a source ends in its last line
(`codeFrame_endOf_ne_nil`). `diagnostics_ordered` puts these together.
-/
import LoopScript.Proofs.Frame

namespace LoopScript

set_option autoImplicit false

open Text

/-! ## The end of a source -/

namespace Position

theorem not_before_self (p : Position) : p.before p = false := by
  rw [Bool.eq_false_iff]
  intro before
  rw [before_iff] at before
  omega

theorem not_before_of_before {p q : Position} (ahead : p.before q = true) : q.before p = false := by
  rw [Bool.eq_false_iff]
  intro back
  rw [before_iff] at ahead back
  omega

/-- What is not before a place is not before an earlier one. -/
theorem not_before_mono {p q r : Position} (last : r.before q = false) (ahead : p.before q = true) :
    r.before p = false := by
  rw [Bool.eq_false_iff] at last ⊢
  intro back
  exact last (before_trans back ahead)

end Position

namespace Glyph

/-- Reading runes never leads back. -/
theorem not_before_start : ∀ (rs : List Rune) (p : Position),
    (rs.foldl (fun p r => p.after r.char) p).before p = false
  | [], p => p.not_before_self
  | r :: rest, p => by
      rw [List.foldl_cons]
      exact Position.not_before_mono (not_before_start rest (p.after r.char)) (p.before_after r.char)

/-- No glyph stands behind the place where its runes lead. -/
theorem not_before_place : ∀ (rs : List Rune) (p : Position), ∀ q ∈ (place p rs).map Glyph.pos,
    (rs.foldl (fun p r => p.after r.char) p).before q = false
  | [], _ => List.forall_mem_nil _
  | r :: rest, p => by
      intro q member
      rw [place, List.map_cons] at member
      rw [List.foldl_cons]
      rcases List.mem_cons.mp member with rfl | later
      · exact not_before_start rest (p.after r.char)
      · exact not_before_place rest (p.after r.char) q later

end Glyph

/-- No token stands behind the end of its source. -/
theorem Token.not_before_of_mem_tokens {source : Text} {t : Token} (member : t ∈ tokens source) :
    (endOf source).before t.pos = false := by
  have places := (tokensOf_pos_sublist _ (Glyph.genuine_ofText source)).subset
  exact Glyph.not_before_place source.runes .start t.pos (places (List.mem_map_of_mem member))

/-- A source that is not empty has a frame for its end. -/
theorem codeFrame_endOf_ne_nil {source : Text} (some : source ≠ []) :
    codeFrame source (endOf source) ≠ [] := by
  have last := splitLines_getElem? source []
  rw [List.append_nil] at last
  have inside : source.count newline < (splitLines source).length :=
    (List.getElem?_eq_some_iff.mp last).1
  have line : (endOf source).line = 1 + source.count newline := by
    rw [endOf_eq]
  rw [Ne, codeFrame_eq_nil_iff]
  rintro (empty | small | beyond)
  · exact some empty
  · omega
  · omega

/-! ## The order of diagnostics -/

/-- The first tokens of ends of a sequence stand in the order in which the ends are left. -/
theorem Parser.placeOf_not_before {stop : Position} {ts tail inner : List Token}
    (increasing : ts.Pairwise fun s t => s.pos.before t.pos = true)
    (last : ∀ t ∈ ts, stop.before t.pos = false) (part : tail <:+ ts) (shorter : inner <:+ tail) :
    (placeOf stop inner).before (placeOf stop tail) = false := by
  cases tail with
  | nil =>
      rw [List.suffix_nil.mp shorter]
      exact stop.not_before_self
  | cons t rest =>
      cases inner with
      | nil =>
          -- The later diagnostic is about the end of the source, which no token stands behind.
          exact last t (part.subset List.mem_cons_self)
      | cons u more =>
          have ordered := increasing.sublist part.sublist
          rcases List.mem_cons.mp (shorter.subset List.mem_cons_self) with rfl | behind
          · exact u.pos.not_before_self
          · exact Position.not_before_of_before (List.rel_of_pairwise_cons ordered behind)

/-- The places of diagnostics do not decrease along their way through the tokens. -/
theorem Diagnostic.Trail.not_before {stop : Position} {ts rest : List Token} {ds : List Diagnostic}
    (trail : Trail stop ts ds rest) (increasing : ts.Pairwise fun s t => s.pos.before t.pos = true)
    (last : ∀ t ∈ ts, stop.before t.pos = false) :
    ds.Pairwise fun d e => e.pos.before d.pos = false := by
  refine trail.pairwise.imp ?_
  rintro d e ⟨tail, inner, part, shorter, ⟨first, -⟩, second, -⟩
  rw [first, second]
  exact Parser.placeOf_not_before increasing last part shorter

namespace Program

/-- A source with a diagnostic is not empty. -/
theorem ne_nil_of_mem_diagnostics {source : Text} {d : Diagnostic} (listed : d ∈ diagnostics source) :
    source ≠ [] := by
  rintro rfl
  have clean : diagnostics [] = [] := by decide +kernel
  rw [clean] at listed
  cases listed

/-- Each diagnostic has a line of the source to show. -/
theorem codeFrame_ne_nil_of_mem_diagnostics {source : Text} {d : Diagnostic}
    (listed : d ∈ diagnostics source) : codeFrame source d.pos ≠ [] := by
  rcases found_of_mem_diagnostics listed with ⟨-, place⟩ | ⟨t, member, -, place⟩
  · rw [place]
    exact codeFrame_endOf_ne_nil (ne_nil_of_mem_diagnostics listed)
  · rw [place]
    exact Token.codeFrame_ne_nil member

end Program

/-- A source is refused just when it has diagnostics, and with all of them. -/
theorem Program.read_eq_error_iff {source : Text} {ds : List Diagnostic} :
    read source = .error ds ↔ ds ≠ [] ∧ ds = diagnostics source := by
  rw [read]
  split
  · next p value clean =>
      constructor
      · intro impossible
        cases impossible
      · rintro ⟨some, rfl⟩
        exact absurd clean some
  · next other =>
      rw [Except.error.injEq]
      constructor
      · rintro rfl
        refine ⟨fun clean => ?_, rfl⟩
        obtain ⟨p, value, -⟩ := lines_of_readTokens clean
        exact other p value clean
      · rintro ⟨-, same⟩
        exact same.symm

/-- **Diagnostics come in the order of the source, at tokens, each with its line.** A source is refused
just when it has diagnostics, and with all of them. Their places do not decrease. Each is about a token of
the source and stands at it, or is about the end of the source and stands there. Its text is its place and
its message with a frame on the lines below, which shows the line of that place and has a caret in its
column, or in the column of the line nearest to it. -/
theorem diagnostics_ordered (source : Text) :
    (∀ ds, Program.read source = .error ds ↔ ds ≠ [] ∧ ds = Program.diagnostics source) ∧
    (Program.diagnostics source).Pairwise (fun d e => e.pos.before d.pos = false) ∧
    ∀ d ∈ Program.diagnostics source,
      (d.found = none ∧ d.pos = endOf source ∨
        ∃ t ∈ Token.tokens source, d.found = some t ∧ d.pos = t.pos) ∧
      codeFrame source d.pos ≠ [] ∧
      d.render source = utf8 "parse error at " ++ d.pos.render ++ utf8 ": " ++ d.message ++
        [newline] ++ codeFrame source d.pos ∧
      ∃ line shown, (splitLines source)[(d.pos.line - 1).toNat]? = some line ∧ Frame.Shows line shown ∧
        splitLines (codeFrame source d.pos) = Frame.lines
          ⟨d.pos.line.toNat, (max 1 (min d.pos.column (shown.runes.length + 1))).toNat, shown⟩ := by
  refine ⟨fun ds => Program.read_eq_error_iff, ?_, ?_⟩
  · obtain ⟨rest, trail⟩ := Program.diagnostics_trail source
    apply trail.not_before (Token.tokens_increasing source)
    intro t member
    exact Token.not_before_of_mem_tokens member
  · intro d listed
    have framed := Program.codeFrame_ne_nil_of_mem_diagnostics listed
    refine ⟨Program.found_of_mem_diagnostics listed, framed, ?_, framed_clamped framed⟩
    rw [Diagnostic.render, withFrame, if_neg framed]

/-- A name that begins nothing, and a block that is open at the end, behind an open parenthesis. -/
def unclosed : Text := utf8 "x ) = 2\nwhile y \x7b\n  z = (1\n"

/-- Two diagnostics about one token, two about those behind it, and two at the end, where the line is
empty and the column is zero. -/
theorem diagnostics_ordered_unclosed :
    (Program.diagnostics unclosed).map Diagnostic.pos =
      [⟨1, 3⟩, ⟨1, 3⟩, ⟨1, 5⟩, ⟨1, 7⟩, ⟨4, 0⟩, ⟨4, 0⟩] ∧
    (Program.diagnostics unclosed).Pairwise (fun d e => e.pos.before d.pos = false) ∧
    ∃ d ∈ Program.diagnostics unclosed, d.found = none ∧ d.pos = ⟨4, 0⟩ ∧
      codeFrame unclosed d.pos ≠ [] ∧
      d.render unclosed = utf8 "parse error at 4:0: expected '\x7d', got end of input" ++
        utf8 "\n  --> line 4, column 1\n 4 | \n   | ^" := by
  have computed : ((Program.diagnostics unclosed).any fun d =>
      decide (d.found = none ∧ d.pos = ⟨4, 0⟩ ∧
        d.render unclosed = utf8 "parse error at 4:0: expected '\x7d', got end of input" ++
          utf8 "\n  --> line 4, column 1\n 4 | \n   | ^")) = true := by
    decide +kernel
  obtain ⟨d, listed, checked⟩ := List.any_eq_true.mp computed
  obtain ⟨found, place, text⟩ := of_decide_eq_true checked
  obtain ⟨-, ordered, each⟩ := diagnostics_ordered unclosed
  obtain ⟨-, framed, -⟩ := each d listed
  exact ⟨by decide +kernel, ordered, d, listed, found, place, framed, text⟩

end LoopScript
