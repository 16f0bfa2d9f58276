/-
# LoopScript.Proofs.Console.Contents — what a session holds

`Consistent` (`LoopScript.Proofs.Console.Invariant`) ties the fields of a session together and says what the
input line holds. `Tidy` says what is in the others. The bindings are `Native`: every name is a word, since
the names that a source assigns to are, and the one function is the one that the engine starts with, since
no run makes another. Every line of a transcript entry is a single line, as the texts that are put into it
come from such names and values.

Every event keeps this (`update_tidy`), so it holds after any events (`updates_tidy`). What running a source
adds is read off `evaluate_cases`.
-/
import LoopScript.Console.View
import LoopScript.Proofs.Console.Candidates
import LoopScript.Proofs.Console.Invariant
import LoopScript.Proofs.Eval.Footprint
import LoopScript.Proofs.Eval.Shown
import LoopScript.Proofs.Value.Inspect
import LoopScript.Proofs.WellFormed

namespace LoopScript

set_option autoImplicit false

/-! ## Words -/

namespace Text.IsWord

variable {t : Text} (isWord : t.IsWord)
include isWord

theorem bytes : ∀ b ∈ t, isLetter b ∨ isDigit b := by
  obtain ⟨b, rest, rfl, letter, others⟩ := isWord
  exact List.forall_mem_cons.mpr ⟨.inl letter, others⟩

theorem ascii : ∀ b ∈ t, b.toNat < 0x80 := fun b member => (ascii_of_nameByte (isWord.bytes b member)).1

theorem newline_notMem : newline ∉ t := by
  intro member
  exact absurd (isWord.bytes newline member) (by decide)

theorem ofChars_chars : ofChars t.chars = t := ofChars_chars_of_ascii isWord.ascii

theorem nameChars : ∀ d ∈ t.chars, Token.isNameChar d := by
  rw [chars_of_ascii isWord.ascii]
  rintro _ member
  obtain ⟨b, inside, rfl⟩ := List.mem_map.mp member
  exact (ascii_of_nameByte (isWord.bytes b inside)).2

end Text.IsWord

theorem Token.isWord_of_keyword {word : Text} (member : word ∈ keywords) : word.IsWord := by
  have words : ∀ w ∈ keywords, w.IsWord := by
    simp only [keywords, List.forall_mem_cons]
    refine ⟨?_, ?_, ?_, ?_, ?_, ?_, ?_, ?_, ?_, ?_, List.forall_mem_nil _⟩ <;>
      exact ⟨_, _, rfl, by decide, by decide +kernel⟩
  exact words word member

/-! ## The names that are assigned to -/

mutual

theorem Stmt.WellFormed.targets : ∀ {s : Stmt}, s.WellFormed → ∀ n ∈ s.targets, n.IsName
  | .assign _ _ _, wellFormed, n, member => by
      rw [Stmt.targets, List.mem_singleton] at member
      rw [member]
      exact wellFormed.1
  | .call _ _ _, _, n, member => by
      rw [Stmt.targets] at member
      cases member
  | .block _ _, wellFormed, _, _ => wellFormed.elim
  | .loop _ _ _ _ _ _, wellFormed, n, member => by
      rcases List.mem_append.mp member with inBody | inOther
      · exact wellFormed.2.2.1.targets n inBody
      · exact Stmt.OtherWellFormed.targets wellFormed.2.2.2 n inOther
  | .branch _ _ _ _ _, wellFormed, n, member => by
      rcases List.mem_append.mp member with inBody | inOther
      · exact wellFormed.2.1.targets n inBody
      · exact Stmt.OtherWellFormed.targets wellFormed.2.2 n inOther

theorem Stmt.AllWellFormed.targets : ∀ {ss : List Stmt}, Stmt.AllWellFormed ss →
    ∀ n ∈ Stmt.targets.targetsAll ss, n.IsName
  | [], _, _, member => by cases member
  | _ :: _, wellFormed, n, member => by
      rcases List.mem_append.mp member with first | later
      · exact wellFormed.1.targets n first
      · exact wellFormed.2.targets n later

theorem Stmt.OtherWellFormed.targets : ∀ {other : Option Stmt}, Stmt.OtherWellFormed other →
    ∀ n ∈ Stmt.targets.targetsOpt other, n.IsName
  | none, _, _, member => by cases member
  | some (.block _ _), wellFormed, n, member => Stmt.AllWellFormed.targets wellFormed n member
  | some (.branch _ _ _ _ _), wellFormed, n, member => by
      rcases List.mem_append.mp member with inBody | inOther
      · exact wellFormed.2.1.targets n inBody
      · exact Stmt.OtherWellFormed.targets wellFormed.2.2 n inOther
  | some (.assign _ _ _), wellFormed, _, _ => wellFormed.elim
  | some (.call _ _ _), wellFormed, _, _ => wellFormed.elim
  | some (.loop _ _ _ _ _ _), wellFormed, _, _ => wellFormed.elim

end

/-- A source assigns to names only. -/
theorem Script.targets_names {source : Text} {script : Script}
    (compiled : Script.compile source = .ok script) : ∀ n ∈ Program.targets script.program, n.IsName := by
  rw [← Stmt.targetsAll_eq]
  exact (Program.wellFormed_of_read (Script.compile_eq_ok.mp compiled).1).targets

/-! ## Bindings -/

def Engine.displayFunction : Function := ⟨0, displayName, .display⟩

/-- Bindings as sources make them: the names are words, and the one function is the one that the engine
starts with. -/
structure Env.Native (env : Env) : Prop where
  names : ∀ n ∈ env.names, n.IsWord
  offers : env.Offers (· = Engine.displayFunction)

theorem Engine.displays_of_eq (f : Function) (same : f = displayFunction) : f.action = .display := by
  rw [same]
  rfl

namespace Env.Native

theorem initial : Engine.initial.builtins.Native where
  names n member := by
    have same : n = Engine.displayName := List.mem_singleton.mp member
    rw [same]
    exact ⟨_, _, rfl, by decide, by decide +kernel⟩
  offers n f bound := by
    rw [Engine.initial, Engine.register, Table.get?_insert] at bound
    split at bound
    · cases bound
      rfl
    · cases bound

variable {env : Env} (native : env.Native)
include native

theorem plain : env.Plain := native.offers.plain Engine.displays_of_eq

/-- What tools show of a bound value stays on one line. -/
theorem newline_notMem_inspect {n : Text} {v : Value} (bound : env.get? n = some v) :
    Text.newline ∉ v.inspect := by
  apply Value.newline_notMem_inspect
  rintro f rfl
  rw [native.offers n f bound]
  decide

end Env.Native

/-- Running a source leaves native bindings, also if it ends in an error. -/
theorem Script.run_native {source : Text} {script : Script} {budget : Nat} {x y : Execution}
    (compiled : Script.compile source = .ok script) (native : x.env.Native)
    (unlimited : x.sink.limit = none) (reached : (script.run budget x).Reaches y) : y.env.Native := by
  refine ⟨fun n member => ?_,
    (script.run_shows Engine.displays_of_eq budget x y native.offers unlimited reached).offers⟩
  by_cases target : n ∈ Program.targets script.program
  · exact (Script.targets_names compiled n target).1
  · obtain ⟨z, ended, rfl⟩ := Outcome.reaches_mapReached.mp reached
    have begun : Env.Plain { x with source := some script.source }.env := native.plain
    obtain ⟨rebinds, -⟩ := Eval.stmts_rebind (Host.host_tame_spent budget) begun ended
    have before := rebinds.others n target
    refine native.names n (Table.mem_names.mpr ?_)
    rw [← before]
    exact Table.mem_names.mp member

namespace Console

/-! ## Entries -/

theorem newline_notMem_prompted {lines : List Text} (absent : ∀ line ∈ lines, Text.newline ∉ line) :
    ∀ line ∈ prompted lines, Text.newline ∉ line := by
  have behind : ∀ (p : Prompt) (t : Text), Text.newline ∉ t → Text.newline ∉ p.text ++ t := by
    intro p t notIn member
    rcases List.mem_append.mp member with inPrompt | later
    · cases p <;> exact absurd inPrompt (by decide)
    · exact notIn later
  cases lines with
  | nil => exact List.forall_mem_nil _
  | cons first more =>
      obtain ⟨one, others⟩ := List.forall_mem_cons.mp absent
      refine List.forall_mem_cons.mpr ⟨behind .main first one, ?_⟩
      rintro _ member
      obtain ⟨line, inside, rfl⟩ := List.mem_map.mp member
      exact behind .continuation line (others line inside)

def Entry.OnLines (e : Entry) : Prop := ∀ line ∈ e.lines, Text.newline ∉ line

/-- The lines of an entry are single lines if its parts are; an error is cut into its lines. -/
theorem Entry.onLines {e : Entry} (source : ∀ line ∈ e.source, Text.newline ∉ line)
    (display : ∀ line ∈ e.display, Text.newline ∉ line) (echo : Text.newline ∉ e.echo)
    (note : Text.newline ∉ e.note) : e.OnLines := by
  have alone : ∀ t : Text, Text.newline ∉ t → ∀ line ∈ lineOf t, Text.newline ∉ line := by
    intro t absent line member
    unfold lineOf at member
    split at member
    · cases member
    · rw [List.mem_singleton.mp member]
      exact absent
  have cut : ∀ line ∈ linesOf e.error, Text.newline ∉ line := by
    intro line member
    unfold linesOf at member
    split at member
    · cases member
    · exact Text.newline_notMem_line member
  unfold Entry.OnLines Entry.lines
  simp only [List.forall_mem_append]
  exact ⟨⟨⟨⟨newline_notMem_prompted source, display⟩, alone _ echo⟩, cut⟩, alone _ note⟩

theorem Entry.onLines_ofNote {note : Text} (absent : Text.newline ∉ note) : (Entry.ofNote note).OnLines :=
  Entry.onLines (List.forall_mem_nil _) (List.forall_mem_nil _) List.not_mem_nil absent

theorem Entry.onLines_ofError (error : Text) : (Entry.ofError error).OnLines :=
  Entry.onLines (List.forall_mem_nil _) (List.forall_mem_nil _) List.not_mem_nil List.not_mem_nil

theorem newline_notMem_joinWith {sep : Text} (between : Text.newline ∉ sep) : ∀ {texts : List Text},
    (∀ t ∈ texts, Text.newline ∉ t) → Text.newline ∉ Text.joinWith sep texts
  | [], _ => List.not_mem_nil
  | [t], absent => absent t List.mem_cons_self
  | t :: next :: more, absent => by
      obtain ⟨first, others⟩ := List.forall_mem_cons.mp absent
      rw [Text.joinWith_cons_cons]
      simp only [List.mem_append, not_or]
      exact ⟨⟨first, between⟩, newline_notMem_joinWith between others⟩

/-! ## What running a source adds -/

/-- A source that does not compile is reported with its errors. One that compiles is run in the bindings of
the session, with an empty sink, and reported with what came of it. -/
theorem evaluate_cases {budget : Nat} {c next : Console} {source : Text}
    (ran : c.evaluate budget source = some next) :
    (∃ ds, Script.compile source = .error ds ∧
      next = c.report ⟨Text.splitLines source, [], [], Diagnostic.renderAll source ds, []⟩) ∨
    ∃ script, Script.compile source = .ok script ∧
      ((∃ x, script.run budget ⟨c.env, .empty none, none⟩ = .ok () x ∧
        next = { c with env := x.env }.report ⟨Text.splitLines source, displayLines x.sink.contents,
          echoOf script.program x.env, [], []⟩) ∨
      ∃ e x, script.run budget ⟨c.env, .empty none, none⟩ = .error e x ∧
        next = { c with env := x.env }.report ⟨Text.splitLines source, displayLines x.sink.contents,
          [], e.message, []⟩) := by
  unfold evaluate at ran
  dsimp only at ran
  cases compiled : Script.compile source with
  | error ds =>
      rw [compiled] at ran
      cases ran
      exact .inl ⟨ds, rfl, rfl⟩
  | ok script =>
      rw [compiled] at ran
      refine .inr ⟨script, rfl, ?_⟩
      dsimp only at ran
      cases ended : script.run budget ⟨c.env, .empty none, none⟩ with
      | ok _ x =>
          rw [ended] at ran
          cases ran
          exact .inl ⟨x, rfl, rfl⟩
      | error e x =>
          rw [ended] at ran
          cases ran
          exact .inr ⟨e, x, rfl, rfl⟩
      | exhausted =>
          rw [ended] at ran
          cases ran

theorem newline_notMem_displayLines (written : Text) :
    ∀ line ∈ displayLines written, Text.newline ∉ line := by
  unfold displayLines
  split
  · exact List.forall_mem_nil _
  · exact fun line member => Text.newline_notMem_line member

theorem newline_notMem_echoOf {program : Program} {env : Env} (native : env.Native) :
    Text.newline ∉ echoOf program env := by
  unfold echoOf
  split
  · next target _ _ _ =>
      split
      · next v bound =>
          have word := native.names target (Table.mem_names.mpr (by rw [bound]; rfl))
          simp only [List.mem_append, not_or]
          exact ⟨⟨word.newline_notMem, by decide⟩, native.newline_notMem_inspect bound⟩
      · exact List.not_mem_nil
  · exact List.not_mem_nil

/-! ## The invariant -/

/-- What is in the fields of a session. -/
structure Tidy (c : Console) : Prop where
  engine : c.engine = .initial
  env : c.env.Native
  entries : ∀ e ∈ c.transcript, e.OnLines

theorem start_tidy (kit : Toolkit) : (start kit).Tidy := ⟨rfl, .initial, List.forall_mem_nil _⟩

namespace Tidy

variable {c : Console} (tidy : c.Tidy)
include tidy

theorem report {e : Entry} (onLines : e.OnLines) : (c.report e).Tidy :=
  { tidy with
    entries := List.forall_mem_append.mpr ⟨tidy.entries, List.forall_mem_singleton.mpr onLines⟩ }

theorem bind {env : Env} (native : env.Native) : { c with env := env }.Tidy := { tidy with env := native }

end Tidy

theorem evaluate_tidy {budget : Nat} {c next : Console} {source : Text} (tidy : c.Tidy)
    (ran : c.evaluate budget source = some next) : next.Tidy := by
  have source : ∀ line ∈ Text.splitLines source, Text.newline ∉ line := fun line member =>
    Text.newline_notMem_line member
  rcases evaluate_cases ran with ⟨ds, -, rfl⟩ | ⟨script, compiled, ⟨x, ended, rfl⟩ | ⟨e, x, ended, rfl⟩⟩
  · exact tidy.report (Entry.onLines source (List.forall_mem_nil _) List.not_mem_nil List.not_mem_nil)
  · have native := Script.run_native compiled tidy.env rfl (by rw [ended]; rfl)
    exact (tidy.bind native).report (Entry.onLines source (newline_notMem_displayLines _)
      (newline_notMem_echoOf native) List.not_mem_nil)
  · have native := Script.run_native compiled tidy.env rfl (by rw [ended]; rfl)
    exact (tidy.bind native).report (Entry.onLines source (newline_notMem_displayLines _)
      List.not_mem_nil List.not_mem_nil)

theorem addLine_tidy {budget : Nat} {c next : Console} {line : Text} (tidy : c.Tidy)
    (added : c.addLine budget line = some next) : next.Tidy := by
  unfold addLine at added
  dsimp only at added
  split at added
  · cases added
    exact { tidy with }
  · have closed : { c with pending := [], prompt := .main }.Tidy := { tidy with }
    exact evaluate_tidy closed added

theorem runCommand_tidy {c : Console} (tidy : c.Tidy) (line : Text) : (c.runCommand line).Tidy := by
  unfold runCommand
  split
  · exact { tidy with }
  · exact { tidy with }
  · exact { tidy with }
  · exact { tidy with }
  · exact { tidy with entries := List.forall_mem_nil _ }
  · have reset : { c with env := c.engine.builtins }.Tidy := tidy.bind (by rw [tidy.engine]; exact .initial)
    exact reset.report (Entry.onLines_ofNote (by decide))
  · exact tidy.report (Entry.onLines_ofError _)

theorem submit_tidy {budget : Nat} {c next : Console} (tidy : c.Tidy)
    (submitted : c.submit budget = some next) : next.Tidy := by
  have cleared : { c with input := [], recallAt := none }.Tidy := { tidy with }
  unfold submit at submitted
  dsimp only at submitted
  split at submitted
  · cases submitted
    exact cleared
  · split at submitted
    · cases submitted
      exact runCommand_tidy cleared _
    · split at submitted
      · exact addLine_tidy cleared submitted
      · have kept : { c with
            input := [], recallAt := none, remembered := c.remembered ++ [c.input] }.Tidy := { tidy with }
        exact addLine_tidy kept submitted

theorem discard_tidy {c : Console} (tidy : c.Tidy) : c.discard.Tidy := by
  unfold discard
  split
  · exact { tidy with }
  · have dropped : { c with pending := [], input := [], prompt := .main }.Tidy := { tidy with }
    refine dropped.report (Entry.onLines_ofNote ?_)
    simp only [List.mem_append, not_or]
    exact ⟨⟨by decide, Text.newline_notMem_ofNat _⟩, by decide⟩

theorem older_tidy {c : Console} (tidy : c.Tidy) : c.older.Tidy := by
  unfold older
  split
  · exact tidy
  · split <;> exact { tidy with }

theorem newer_tidy {c : Console} (tidy : c.Tidy) : c.newer.Tidy := by
  unfold newer
  split
  · exact tidy
  · split
    · exact tidy
    · split <;> exact { tidy with }

theorem Tidy.candidate_isWord {c : Console} (tidy : c.Tidy) {stem word : Text}
    (member : word ∈ candidates stem c.env.names) : word.IsWord := by
  rcases (mem_candidates.mp member).1 with reserved | bound
  · exact Token.isWord_of_keyword reserved
  · exact tidy.env.names word bound

theorem complete_tidy {c : Console} (tidy : c.Tidy) : c.complete.Tidy := by
  unfold complete
  dsimp only
  split
  · exact tidy
  · split
    · exact tidy
    · exact { tidy with }
    · refine tidy.report (Entry.onLines_ofNote ?_)
      simp only [List.mem_append, not_or]
      refine ⟨by decide, newline_notMem_joinWith (by decide) fun word member => ?_⟩
      exact (tidy.candidate_isWord member).newline_notMem

/-- Every event keeps a session tidy. -/
theorem update_tidy {budget : Nat} {c next : Console} {e : Event} (tidy : c.Tidy)
    (updated : c.update budget e = some next) : next.Tidy := by
  cases e with
  | submit => exact submit_tidy tidy updated
  | discard =>
      cases updated
      exact discard_tidy tidy
  | older =>
      cases updated
      exact older_tidy tidy
  | newer =>
      cases updated
      exact newer_tidy tidy
  | complete =>
      cases updated
      exact complete_tidy tidy
  | clear =>
      cases updated
      exact { tidy with entries := List.forall_mem_nil _ }
  | set | type | erase | toggleBindings | toggleGrammar | quit | resize =>
      cases updated
      exact { tidy with }

/-- After any events from the start, a session is tidy. -/
theorem updates_tidy {kit : Toolkit} {budget : Nat} {events : List Event} {c : Console}
    (reached : updates budget (start kit) events = some c) : c.Tidy :=
  updates_preserve update_tidy (start_tidy kit) reached

end Console

end LoopScript
