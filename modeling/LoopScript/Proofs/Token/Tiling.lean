/-
# LoopScript.Proofs.Token.Tiling — tokens and gaps make up the source, each token at its place

Nothing of a source is lost when it is cut into tokens. `Tiles before source ts` says how the text
`source`, which stands behind `before`, is made up: a gap, the bytes of the first token, a gap, the bytes
of the second token, and so on to a last gap.

* `Gap rest gap` — blanks and comments with `rest` behind them. A comment runs up to a line feed or to
  the end of the source.
* `Covers t span rest` — the bytes `span` are those of the token `t`: its text, for a token that can be
  read; one rune, for a character that begins no token; a quote and all that follows it, for a string that
  is never closed.

The places of the tokens are counted in the bytes in front of them (`Text.placeBehind`), and they
increase from token to token (`tokensOf_pos_sublist`, `place_increasing`).
-/
import LoopScript.Proofs.Text.Boundary

namespace LoopScript

set_option autoImplicit false

/-! ## Positions increase -/

namespace Position

theorem before_iff {p q : Position} :
    p.before q = true ↔ p.line < q.line ∨ p.line = q.line ∧ p.column < q.column := by
  rw [before]
  split
  · next same => simp [same]
  · next other =>
      simp only [decide_eq_true_eq, other, false_and, or_false]

theorem before_trans {p q r : Position} (first : p.before q = true) (second : q.before r = true) :
    p.before r = true := by
  rw [before_iff] at first second ⊢
  omega

theorem before_after (p : Position) (c : Char) : p.before (p.after c) = true := by
  rw [before_iff, after]
  split
  · left
    exact Int.lt_succ p.line
  · right
    exact ⟨rfl, Int.lt_succ p.column⟩

end Position

namespace Glyph

/-- Glyphs stand behind the position they follow, each further on than those before it. -/
theorem place_increasing : ∀ (rs : List Rune) (p : Position),
    ((place p rs).map Glyph.pos).Pairwise (fun a b => a.before b = true) ∧
      ∀ q ∈ (place p rs).map Glyph.pos, p.before q = true
  | [], p => by simp [place]
  | r :: rest, p => by
      obtain ⟨increasing, behind⟩ := place_increasing rest (p.after r.char)
      have step := p.before_after r.char
      rw [place, List.map_cons]
      refine ⟨List.pairwise_cons.mpr ⟨behind, increasing⟩, ?_⟩
      intro q member
      rcases List.mem_cons.mp member with rfl | later
      · exact step
      · exact Position.before_trans step (behind q later)

end Glyph

namespace Token

/-! ## What a tiling is -/

/-- Blanks and comments, with `rest` behind them. -/
inductive Gap (rest : Text) : Text → Prop where
  | nothing : Gap rest []
  | blank {b : UInt8} {gap : Text} : b ∈ utf8 " \t\r\n" → Gap rest gap → Gap rest (b :: gap)
  | comment {body gap : Text} :
      Text.newline ∉ body → gap.head? = some Text.newline ∨ gap ++ rest = [] → Gap rest gap →
      Gap rest (utf8 "#" ++ body ++ gap)

/-- The bytes of a token, with `rest` behind them. -/
def Covers (t : Token) (span rest : Text) : Prop :=
  match t.kind with
  | .illegal => ∃ c, (span ++ rest).runes = ⟨c, span⟩ :: rest.runes
  | .unterminated => rest = [] ∧
      ∃ quote content, span = quote :: content ∧ quote ∈ utf8 "\"'" ∧ quote ∉ content
  | _ => t.text = span

/-- A text behind `before`, as the bytes of tokens with gaps around them. -/
inductive Tiles : Text → Text → List Token → Prop where
  | last {before gap : Text} : Gap [] gap → Tiles before gap []
  | next {before gap span rest : Text} {t : Token} {ts : List Token} :
      Gap (span ++ rest) gap → span ≠ [] → Covers t span rest →
      t.pos = (before ++ gap).placeBehind → Tiles (before ++ gap ++ span) rest ts →
      Tiles before (gap ++ (span ++ rest)) (t :: ts)

/-! ## Gaps -/

open Glyph

/-- A glyph of an ASCII character is the byte of that character. -/
theorem bytes_of_ascii {gs : List Glyph} (genuine : Genuine gs) {g : Glyph} (member : g ∈ gs)
    (ascii : g.char.toNat < 0x80) : g.bytes = String.utf8EncodeChar g.char := by
  obtain ⟨b, rest, same⟩ := genuine.first member
  have char : g.char = (Rune.first b rest).char := congrArg Rune.char same
  have bytes : g.bytes = (Rune.first b rest).bytes := congrArg Rune.bytes same
  rw [bytes, char]
  exact Rune.bytes_first_of_ascii (char ▸ ascii)

/-- An ASCII byte of a glyph is its character. -/
theorem char_of_ascii {gs : List Glyph} (genuine : Genuine gs) {g : Glyph} (member : g ∈ gs)
    {d : UInt8} (inside : d ∈ g.bytes) (ascii : d.toNat < 0x80) : g.char = Char.ofNat d.toNat := by
  obtain ⟨b, rest, same⟩ := genuine.first member
  have bytes : g.bytes = (Rune.first b rest).bytes := congrArg Rune.bytes same
  have whole := Rune.first_eq_of_ascii (bytes ▸ inside) ascii
  exact congrArg Rune.char (same.trans whole)

theorem bytes_of_blank {gs : List Glyph} (genuine : Genuine gs) {g : Glyph} (member : g ∈ gs)
    (blank : isBlank g.char) : ∃ b ∈ utf8 " \t\r\n", g.bytes = [b] := by
  simp only [isBlank, Bool.or_eq_true, beq_iff_eq] at blank
  have bytes := bytes_of_ascii genuine member (by
    rcases blank with ((char | char) | char) | char <;> rw [char] <;> decide)
  rcases blank with ((char | char) | char) | char <;> rw [char] at bytes
  · exact ⟨32, by decide, bytes⟩
  · exact ⟨9, by decide, bytes⟩
  · exact ⟨13, by decide, bytes⟩
  · exact ⟨10, by decide, bytes⟩

theorem bytesOf_cons (g : Glyph) (gs : List Glyph) : bytesOf (g :: gs) = g.bytes ++ bytesOf gs :=
  List.flatMap_cons

mutual

/-- What is skipped before a token is a gap. -/
theorem gap_of_skipBlanks : ∀ gs : List Glyph, Genuine gs →
    ∃ blanks, gs = blanks ++ skipBlanksIn false gs ∧
      Gap (bytesOf (skipBlanksIn false gs)) (bytesOf blanks)
  | [], _ => ⟨[], rfl, .nothing⟩
  | g :: rest, genuine => by
      have behind : Genuine rest := genuine.tail
      rw [skipBlanksIn]
      split
      · next blank =>
          obtain ⟨blanks, split, gap⟩ := gap_of_skipBlanks rest behind
          obtain ⟨b, isOne, bytes⟩ := bytes_of_blank genuine List.mem_cons_self blank
          refine ⟨g :: blanks, by rw [List.cons_append, ← split], ?_⟩
          rw [bytesOf_cons, bytes]
          exact .blank isOne gap
      · split
        · next hash =>
            obtain ⟨body, blanks, split, absent, ends, gap⟩ := gap_of_comment rest behind
            have bytes := bytes_of_ascii genuine List.mem_cons_self (by rw [hash]; decide)
            rw [hash] at bytes
            refine ⟨g :: (body ++ blanks), by rw [List.cons_append, ← split], ?_⟩
            rw [bytesOf_cons, bytesOf_append, bytes, ← List.append_assoc]
            exact .comment absent ends gap
        · exact ⟨[], rfl, .nothing⟩

/-- What is skipped behind a hash sign is the body of the comment and a gap that ends it. -/
theorem gap_of_comment : ∀ gs : List Glyph, Genuine gs →
    ∃ body blanks, gs = body ++ blanks ++ skipBlanksIn true gs ∧ Text.newline ∉ bytesOf body ∧
      ((bytesOf blanks).head? = some Text.newline ∨
        bytesOf blanks ++ bytesOf (skipBlanksIn true gs) = []) ∧
      Gap (bytesOf (skipBlanksIn true gs)) (bytesOf blanks)
  | [], _ => ⟨[], [], rfl, List.not_mem_nil, .inr rfl, .nothing⟩
  | g :: rest, genuine => by
      have behind : Genuine rest := genuine.tail
      rw [skipBlanksIn]
      by_cases feed : g.char = '\n'
      · obtain ⟨blanks, split, gap⟩ := gap_of_skipBlanks rest behind
        obtain ⟨b, isOne, bytes⟩ := bytes_of_blank genuine List.mem_cons_self (by rw [feed]; rfl)
        have newline : g.bytes = [Text.newline] := by
          rw [bytes_of_ascii genuine List.mem_cons_self (by rw [feed]; decide), feed]
          rfl
        have closed : (g.char != '\n') = false := by simp [feed]
        rw [closed]
        refine ⟨[], g :: blanks, ?_, List.not_mem_nil, .inl ?_, ?_⟩
        · rw [List.nil_append, List.cons_append, ← split]
        · rw [bytesOf_cons, newline]
          rfl
        · rw [bytesOf_cons, newline]
          exact .blank (by decide) gap
      · obtain ⟨body, blanks, split, absent, ends, gap⟩ := gap_of_comment rest behind
        have commented : (g.char != '\n') = true := by simp [feed]
        rw [commented]
        refine ⟨g :: body, blanks, ?_, ?_, ends, gap⟩
        · rw [List.cons_append, List.cons_append, ← split]
        · rw [bytesOf_cons, List.mem_append]
          rintro (inside | inside)
          · exact feed (char_of_ascii genuine List.mem_cons_self inside (by decide))
          · exact absent inside

end

/-! ## Tokens -/

theorem covers_of_legal {t : Token} {span : Text} (rest : Text) (legal : Grammar.Legal t.kind)
    (same : t.text = span) : Covers t span rest := by
  rw [Covers]
  split
  · next kind => simp only [kind, Grammar.Legal] at legal
  · next kind => simp only [kind, Grammar.Legal] at legal
  · exact same

theorem legal_of_singleKind? {c : Char} {kind : Kind} (found : singleKind? c = some kind) :
    Grammar.Legal kind := by
  unfold singleKind? at found
  split at found <;> cases found <;> trivial

theorem legal_of_doubleKinds? {c : Char} {double single : Kind}
    (found : doubleKinds? c = some (double, single)) :
    Grammar.Legal double ∧ Grammar.Legal single := by
  unfold doubleKinds? at found
  split at found <;> cases found <;> exact ⟨trivial, trivial⟩

theorem legal_ofWord (word : Text) : Grammar.Legal (Kind.ofWord word) := by
  unfold Kind.ofWord
  repeat' split
  all_goals trivial

/-- How a token and what follows it make up glyphs that begin with `g`. -/
def Taken (g : Glyph) (rest : List Glyph) (taken : Token × List Glyph) : Prop :=
  ∃ more, rest = more ++ taken.2 ∧ taken.1.pos = g.pos ∧
    Covers taken.1 (bytesOf (g :: more)) (bytesOf taken.2)

theorem taken_take {kind : Kind} {g : Glyph} {more after rest : List Glyph}
    (legal : Grammar.Legal kind) (split : rest = more ++ after) :
    Taken g rest (take kind g more after) :=
  ⟨more, split, rfl, covers_of_legal _ legal rfl⟩

theorem taken_readWord (g : Glyph) (rest : List Glyph) : Taken g rest (readWord g rest) :=
  taken_take (legal_ofWord _) List.takeWhile_append_dropWhile.symm

theorem taken_readNumber (g : Glyph) (rest : List Glyph) : Taken g rest (readNumber g rest) := by
  have whole : rest = rest.takeWhile (fun h => isDigit h.char) ++ rest.dropWhile fun h => isDigit h.char :=
    List.takeWhile_append_dropWhile.symm
  unfold readNumber
  dsimp only
  split
  · next point d after found =>
      rw [found] at whole
      split
      · refine taken_take trivial ?_
        rw [List.append_assoc, List.cons_append, List.cons_append, List.takeWhile_append_dropWhile]
        exact whole
      · exact taken_take trivial whole
  · exact taken_take trivial whole

theorem taken_readEquals {double single : Kind} (legal : Grammar.Legal double ∧ Grammar.Legal single)
    (g : Glyph) : ∀ rest : List Glyph, Taken g rest (readEquals double single g rest)
  | [] => taken_take legal.2 rfl
  | h :: rest => by
      rw [readEquals]
      split
      · exact taken_take legal.1 rfl
      · exact taken_take legal.2 rfl

/-- A string has its text, and an open one reaches to the end and does not have its quote again. -/
theorem taken_readString {g : Glyph} {rest : List Glyph} (genuine : Genuine (g :: rest))
    (quote : g.char = '"' ∨ g.char = '\'') : Taken g rest (readString g rest) := by
  have whole : rest = rest.takeWhile (fun h => h.char != g.char) ++
      rest.dropWhile fun h => h.char != g.char := List.takeWhile_append_dropWhile.symm
  unfold readString
  split
  · next closing after found =>
      refine taken_take trivial ?_
      rw [found] at whole
      rw [List.append_assoc]
      exact whole
  · next found =>
      refine ⟨rest, (List.append_nil rest).symm, rfl, rfl, ?_⟩
      have unclosed : ∀ h ∈ rest, h.char ≠ g.char := by
        intro h member
        simpa using List.dropWhile_eq_nil_iff.mp found h member
      obtain ⟨b, isQuote, ascii, char, bytes⟩ : ∃ b ∈ utf8 "\"'", b.toNat < 0x80 ∧
          g.char = Char.ofNat b.toNat ∧ g.bytes = [b] := by
        have bytes := bytes_of_ascii genuine List.mem_cons_self (by
          rcases quote with char | char <;> rw [char] <;> decide)
        rcases quote with char | char <;> rw [char] at bytes ⊢
        · exact ⟨34, by decide, by decide, by decide, bytes⟩
        · exact ⟨39, by decide, by decide, by decide, bytes⟩
      refine ⟨b, bytesOf rest, by rw [bytesOf_cons, bytes]; rfl, isQuote, ?_⟩
      intro again
      obtain ⟨h, member, inside⟩ := List.mem_flatMap.mp again
      have same := char_of_ascii genuine (List.mem_cons_of_mem g member) inside ascii
      exact unclosed h member (same.trans char.symm)

/-- The token that is read has the bytes it covers, and stands where the first of them does. -/
theorem taken_read {g : Glyph} {rest : List Glyph} (genuine : Genuine (g :: rest)) :
    Taken g rest (read g rest) := by
  unfold read
  split
  · next kind _ found => exact taken_take (legal_of_singleKind? found) rfl
  · next double single _ found => exact taken_readEquals (legal_of_doubleKinds? found) g rest
  · split
    · next quote => exact taken_readString genuine quote
    · split
      · exact taken_readWord g rest
      · split
        · exact taken_readNumber g rest
        · refine ⟨[], rfl, rfl, g.char, ?_⟩
          have single : bytesOf [g] = g.bytes := List.append_nil _
          rw [single, ← bytesOf_cons, genuine, genuine.tail]
          rfl

/-- The first glyph of a token is no blank. -/
theorem skipBlanksIn_cons {g : Glyph} {rest : List Glyph} : ∀ (gs : List Glyph) (comment : Bool),
    skipBlanksIn comment gs = g :: rest → isBlank g.char = false
  | [], _, found => by
      rw [skipBlanksIn] at found
      cases found
  | h :: gs, true, found => skipBlanksIn_cons gs (h.char != '\n') found
  | h :: gs, false, found => by
      rw [skipBlanksIn] at found
      split at found
      · exact skipBlanksIn_cons gs false found
      · next notBlank =>
          split at found
          · exact skipBlanksIn_cons gs true found
          · cases found
            simpa using notBlank

/-! ## The whole source -/

/-- The tokens of the glyphs behind `before` tile their bytes. -/
theorem tiles_tokensOf {source : Text} (gs : List Glyph) : ∀ before : List Glyph,
    ofText source = before ++ gs → Tiles (bytesOf before) (bytesOf gs) (tokensOf gs) := by
  fun_induction tokensOf gs with
  | case1 gs done =>
      intro before split
      have genuine := genuine_ofText source
      rw [split] at genuine
      obtain ⟨blanks, same, gap⟩ := gap_of_skipBlanks gs genuine.parts.2
      rw [skipBlanks] at done
      rw [done] at same gap
      rw [List.append_nil] at same
      rw [same]
      exact .last gap
  | case2 gs g rest found ih =>
      intro before split
      have genuine := genuine_ofText source
      rw [split] at genuine
      obtain ⟨blanks, same, gap⟩ := gap_of_skipBlanks gs genuine.parts.2
      rw [skipBlanks] at found
      rw [found] at same gap
      rw [same] at genuine split
      have ahead : Genuine (g :: rest) := genuine.parts.2.parts.2
      obtain ⟨more, behind, pos, covers⟩ := taken_read ahead
      have bytes : bytesOf (g :: rest) = bytesOf (g :: more) ++ bytesOf (read g rest).2 := by
        rw [← bytesOf_append, List.cons_append, ← behind]
      have place : (read g rest).1.pos = (bytesOf before ++ bytesOf blanks).placeBehind := by
        have other : g.char ≠ '\n' := by
          intro feed
          have visible := skipBlanksIn_cons gs false found
          rw [feed] at visible
          cases visible
        have stands : ofText source = (before ++ blanks) ++ g :: rest := by
          rw [List.append_assoc]
          exact split
        rw [pos, pos_eq stands, after_endOf other, bytesOf_append]
      have others := ih (before ++ blanks ++ (g :: more)) (by
        rw [split, List.append_assoc, List.append_assoc, List.cons_append, ← behind])
      rw [bytesOf_append, bytesOf_append] at others
      rw [bytes] at gap
      rw [same, bytesOf_append, bytes]
      refine .next gap ?_ covers place others
      rw [bytesOf_cons]
      exact fun none => ahead.bytes_ne_nil List.mem_cons_self (List.append_eq_nil_iff.mp none).1

/-- Each token has the position of one of the glyphs, in their order. -/
theorem tokensOf_pos_sublist (gs : List Glyph) (genuine : Genuine gs) :
    ((tokensOf gs).map Token.pos).Sublist (gs.map Glyph.pos) := by
  fun_induction tokensOf gs with
  | case1 gs done => exact List.nil_sublist _
  | case2 gs g rest found ih =>
      obtain ⟨blanks, same, -⟩ := gap_of_skipBlanks gs genuine
      rw [skipBlanks] at found
      rw [found] at same
      rw [same] at genuine
      have ahead : Genuine (g :: rest) := genuine.parts.2
      obtain ⟨more, behind, pos, -⟩ := taken_read ahead
      have after : Genuine (read g rest).2 := by
        have whole := ahead.tail
        rw [behind] at whole
        exact whole.parts.2
      have others : ((tokensOf (read g rest).2).map Token.pos).Sublist (rest.map Glyph.pos) := by
        have suffix : ((read g rest).2.map Glyph.pos).Sublist (rest.map Glyph.pos) := by
          refine List.Sublist.map Glyph.pos ?_
          exact (List.suffix_iff_exists_eq_append.mpr ⟨more, behind⟩).sublist
        exact (ih after).trans suffix
      rw [same, List.map_append, List.map_cons, List.map_cons, pos]
      exact (others.cons_cons g.pos).trans (List.sublist_append_right _ _)

/-- The tokens of a source stand one behind the other. -/
theorem tokens_increasing (source : Text) :
    (tokens source).Pairwise fun s t => s.pos.before t.pos = true := by
  have sublist := tokensOf_pos_sublist _ (genuine_ofText source)
  have glyphs := (place_increasing source.runes .start).1
  exact List.pairwise_map.mp (glyphs.sublist sublist)

/-- **Tokens and gaps make up the source, each token at its place.** The source is the bytes of its tokens
with gaps around them: a gap has only blanks and comments, a token that can be read has its text as its
bytes, and one that cannot is a single rune or reaches from an open quote to the end. A token stands at
the line and the column that are counted in front of it, so that later tokens stand further on. The end of
the source is where its last rune stands. -/
theorem tokens_tile (source : Text) :
    Tiles [] source (tokens source) ∧
    (tokens source).Pairwise (fun s t => s.pos.before t.pos = true) ∧
    endOf source = ⟨1 + source.count Text.newline, source.lastLine.runes.length⟩ ∧
    endOf source = ((ofText source).getLast?.map Glyph.pos).getD ⟨1, 0⟩ := by
  refine ⟨?_, tokens_increasing source, endOf_eq source, ?_⟩
  · have tiles := tiles_tokensOf (ofText source) [] (List.nil_append _).symm
    rw [bytesOf_ofText] at tiles
    exact tiles
  · exact endOf_eq_last source

end Token

end LoopScript
