/-
# LoopScript.Proofs.Lint.Soundness — a program without warnings runs into nothing it was checked for

The walk of `LoopScript.Lint` over a program and the errors that running it can raise
(`LoopScript.Proofs.Eval.Raises`) are compared node by node: what the walk lets pass raises no error about
something that cannot be run, and no error about a name that nothing binds (`Cause.Benign`).

`run_of_no_warnings` states it for the runs of a source that compiles, of any length, from a fresh
execution of the engine that can only display. Names may still be used before they are assigned; the
invariant is that what the engine binds stays bound.
-/
import LoopScript.Lint
import LoopScript.Proofs.Eval.Raises
import LoopScript.Proofs.InClass

namespace LoopScript

set_option autoImplicit false

namespace Lint

/-- Whether a name counts as bound: it is a function of the host, or some statement assigns to it. -/
def bound (builtins : List Text) (program : Program) (name : Text) : Bool :=
  (builtins ++ Program.targets program).contains name

theorem bound_iff {builtins : List Text} {program : Program} {name : Text} :
    bound builtins program name = true ↔ name ∈ builtins ∨ name ∈ Program.targets program := by
  rw [bound, List.contains_iff_mem, List.mem_append]

/-- Sorting neither adds nor drops a warning. -/
theorem warnings_eq_nil {builtins : List Text} {program : Program} :
    warnings builtins program = [] ↔ ofStmts (bound builtins program) program = [] := by
  rw [← List.length_eq_zero_iff, ← List.length_eq_zero_iff, warnings, List.length_mergeSort]
  rfl

variable {isBound : Text → Bool}

theorem warnIfNot_eq_nil {fine : Bool} {pos : Position} {cause : Cause}
    (clean : warnIfNot fine pos cause = []) : fine = true := by
  unfold warnIfNot at clean
  split at clean
  · assumption
  · cases clean

theorem ofExprs_eq_nil : ∀ {es : List Expr}, ofExprs isBound es = [] →
    ∀ e ∈ es, ofExpr isBound e = []
  | _ :: _, clean, e, member => by
      obtain ⟨first, rest⟩ := List.append_eq_nil_iff.mp clean
      rcases List.mem_cons.mp member with rfl | member
      · exact first
      · exact ofExprs_eq_nil rest e member

theorem ofStmts_eq_nil : ∀ {ss : List Stmt}, ofStmts isBound ss = [] →
    ∀ s ∈ ss, ofStmt isBound s = []
  | _ :: _, clean, s, member => by
      obtain ⟨first, rest⟩ := List.append_eq_nil_iff.mp clean
      rcases List.mem_cons.mp member with rfl | member
      · exact first
      · exact ofStmts_eq_nil rest s member

end Lint

/-- Nothing that cannot be run, and no unbound name but one of `assigned`. -/
def Cause.Benign (assigned : Text → Prop) : Cause → Prop
  | .fault (.unboundVariable name) => assigned name
  | .fault (.unboundFunction name) => assigned name
  | .fault _ => True
  | .unsupported _ => False
  | .invalidInteger _ => True
  | .invalidFloat _ => True
  | .host kind _ => kind = .other

namespace Cause.Benign

variable {assigned : Text → Prop} {cause : Cause}

theorem kind_ne_unsupported (benign : cause.Benign assigned) : cause.kind ≠ .unsupported := by
  have others : ErrorKind.name ≠ .unsupported ∧ ErrorKind.type ≠ .unsupported ∧
      ErrorKind.other ≠ .unsupported := by decide
  cases cause with
  | fault f =>
      rcases f.kind_eq with same | same
      · exact fun kind => others.1 (same.symm.trans kind)
      · exact fun kind => others.2.1 (same.symm.trans kind)
  | unsupported u => exact benign.elim
  | invalidInteger | invalidFloat => exact others.2.2
  | host kind message =>
      cases benign
      exact others.2.2

/-- A benign cause about a name is about one of `assigned`. -/
theorem named (benign : cause.Benign assigned) (kind : cause.kind = .name) :
    ∃ name, (cause = .fault (.unboundVariable name) ∨ cause = .fault (.unboundFunction name)) ∧
      assigned name := by
  have notType : ErrorKind.type ≠ .name := by decide
  have notOther : ErrorKind.other ≠ .name := by decide
  cases cause with
  | fault f =>
      cases f with
      | unboundVariable name => exact ⟨name, .inl rfl, benign⟩
      | unboundFunction name => exact ⟨name, .inr rfl, benign⟩
      | notAFunction | cannotAdd | cannotSubtract | cannotCompare | notABoolean =>
          exact absurd kind notType
  | unsupported u => exact benign.elim
  | invalidInteger | invalidFloat => exact absurd kind notOther
  | host given message =>
      cases benign
      exact absurd kind notOther

end Cause.Benign

namespace Eval

theorem literal_benign {assigned : Text → Prop} {kind : LiteralKind} {text : Text} {cause : Cause}
    (failed : literal kind text = .error cause) (known : kind ≠ .other) : cause.Benign assigned := by
  unfold literal at failed
  split at failed
  · split at failed
    · cases failed
    · cases failed
      trivial
  · split at failed
    · cases failed
    · cases failed
      trivial
  · cases failed
  · cases failed
  · cases failed
  · exact absurd rfl known

theorem typeFault_benign {assigned : Text → Prop} {f : Fault} (kind : f.kind = .type) :
    (Cause.fault f).Benign assigned := by
  have notName : ErrorKind.name ≠ .type := by decide
  cases f with
  | unboundVariable | unboundFunction => exact absurd kind notName
  | notAFunction | cannotAdd | cannotSubtract | cannotCompare | notABoolean => trivial

variable {isBound : Text → Bool} {assigned : Text → Prop}

/-- Without a warning an expression raises benign errors only, if the names that count as bound are
bound or assigned. -/
theorem Raises.benign {env : Env} {e : Expr} {cause : Cause} {place : Position}
    (raised : Raises env e cause place)
    (known : ∀ n, isBound n = true → env.get? n = none → assigned n) :
    Lint.ofExpr isBound e = [] → e.InClass → cause.Benign assigned := by
  induction raised with
  | unbound absent => exact fun clean _ => known _ (Lint.warnIfNot_eq_nil clean) absent
  | literal failed => exact fun _ inClass => literal_benign failed inClass
  | argument member _ ih =>
      intro clean inClass
      obtain ⟨-, args⟩ := List.append_eq_nil_iff.mp clean
      exact ih (Lint.ofExprs_eq_nil args _ member) (Expr.AllInClass.of_mem inClass _ member)
  | unboundCallee absent =>
      intro clean _
      obtain ⟨callee, -⟩ := List.append_eq_nil_iff.mp clean
      exact known _ (Lint.warnIfNot_eq_nil callee) absent
  | notAFunction => exact fun _ _ => trivial
  | refused => exact fun _ _ => rfl
  | left _ _ ih =>
      intro clean inClass
      obtain ⟨-, operands⟩ := List.append_eq_nil_iff.mp clean
      exact ih (List.append_eq_nil_iff.mp operands).1 inClass.2.1
  | right _ _ ih =>
      intro clean inClass
      obtain ⟨-, operands⟩ := List.append_eq_nil_iff.mp clean
      exact ih (List.append_eq_nil_iff.mp operands).2 inClass.2.2
  | operands kind => exact fun _ _ => typeFault_benign kind
  | @additive op _ _ _ notAdd notJoin notSub =>
      intro _ inClass
      have level : op.level? = some .additive := inClass.1
      cases op <;> contradiction
  | comparison notLess =>
      intro clean _
      obtain ⟨operator, -⟩ := List.append_eq_nil_iff.mp clean
      exact absurd (of_decide_eq_true (Lint.warnIfNot_eq_nil operator)) notLess
  | product => exact fun clean _ => absurd clean (List.cons_ne_nil _ _)
  | boolean => exact fun clean _ => absurd clean (List.cons_ne_nil _ _)
  | negation => exact fun clean _ => absurd clean (List.cons_ne_nil _ _)

theorem StmtRaises.benign {I : Env → Prop} {s : Stmt} {cause : Cause} {place : Position}
    (raised : StmtRaises I s cause place)
    (known : ∀ env, I env → ∀ n, isBound n = true → env.get? n = none → assigned n) :
    Lint.ofStmt isBound s = [] → s.InClass → cause.Benign assigned := by
  induction raised with
  | value holds raised => exact raised.benign (known _ holds)
  | call holds raised => exact raised.benign (known _ holds)
  | block member _ ih =>
      exact fun clean inClass =>
        ih (Lint.ofStmts_eq_nil clean _ member) (Stmt.AllInClass.of_mem inClass _ member)
  | condition holds raised =>
      intro clean inClass
      obtain ⟨condition, -⟩ := List.append_eq_nil_iff.mp clean
      exact raised.benign (known _ holds) condition inClass.1
  | test => exact fun _ _ => trivial
  | body member _ ih =>
      intro clean inClass
      obtain ⟨-, rest⟩ := List.append_eq_nil_iff.mp clean
      obtain ⟨body, -⟩ := List.append_eq_nil_iff.mp rest
      exact ih (Lint.ofStmts_eq_nil body _ member) (Stmt.AllInClass.of_mem inClass.2.1 _ member)
  | alternative _ ih =>
      intro clean inClass
      obtain ⟨-, rest⟩ := List.append_eq_nil_iff.mp clean
      exact ih (List.append_eq_nil_iff.mp rest).2 inClass.2.2
  | branch => exact fun clean _ => absurd clean (List.cons_ne_nil _ _)

/-- Running statements without a warning ends in benign errors only. -/
theorem stmts_benign {builtins : List Text} {program : Program} {budget : Nat} {x y : Execution}
    {e : RuntimeError} (clean : Lint.warnings builtins program = [])
    (inClass : Stmt.AllInClass program) (plain : x.env.Plain)
    (seeded : ∀ n ∈ builtins, (x.env.get? n).isSome)
    (ran : stmts (host budget) budget program x = .error e y) :
    e.cause.Benign fun n => n ∈ Program.targets program ∧ n ∉ builtins := by
  let I : Env → Prop := fun env => env.Plain ∧ ∀ n ∈ builtins, (env.get? n).isSome
  have keeps : ∀ n, Assignable I n := by
    intro n env v holds value
    refine ⟨holds.1.insert n value, fun m member => ?_⟩
    rw [Table.get?_insert]
    split
    · rfl
    · exact holds.2 m member
  have met := meets_stmts (fun env holds => holds.1) (Host.host_tame_spent budget) budget program x
    (show I x.env from ⟨plain, seeded⟩) fun n _ => keeps n
  rw [ran] at met
  obtain ⟨⟨s, member, raised⟩, -⟩ := met
  have known : ∀ env, I env → ∀ n, Lint.bound builtins program n = true → env.get? n = none →
      n ∈ Program.targets program ∧ n ∉ builtins := by
    intro env holds n counted absent
    have notBuiltin : n ∉ builtins := by
      intro builtin
      have := holds.2 n builtin
      rw [absent] at this
      cases this
    exact ⟨(Lint.bound_iff.mp counted).resolve_left notBuiltin, notBuiltin⟩
  exact raised.benign known (Lint.ofStmts_eq_nil (Lint.warnings_eq_nil.mp clean) s member)
    (inClass.of_mem s member)

end Eval

namespace Script

/-- **A program without warnings runs into nothing it was checked for.** However long it runs in a
fresh execution of an engine that can only display, it does not end in an error about something that
cannot be run; and if it ends in an error about a name, the program assigns to that name, which is no
function of the engine: it was only used too early. -/
theorem run_of_no_warnings {source : Text} {script : Script}
    (compiled : Script.compile source = .ok script)
    (clean : Lint.warnings Engine.initial.builtins.names script.program = [])
    (budget : Nat) (sink : Sink) {e : RuntimeError} {x : Execution}
    (ran : script.run budget (Engine.initial.newExecution sink) = .error e x) :
    e.kind ≠ .unsupported ∧
      (e.kind = .name → ∃ name,
        (e.cause = .fault (.unboundVariable name) ∨ e.cause = .fault (.unboundFunction name)) ∧
          name ∈ Program.targets script.program ∧ name ∉ Engine.initial.builtins.names) := by
  obtain ⟨read, -⟩ := compile_eq_ok.mp compiled
  obtain ⟨y, ended, -⟩ := runWith_eq_error ran
  have benign := Eval.stmts_benign clean (Program.inClass_of_read read) Env.Plain.initial
    (fun n member => Table.mem_names.mp member) ended
  exact ⟨benign.kind_ne_unsupported, benign.named⟩

/-- A name that is displayed before it is assigned has no warning, and the run ends in an error about
it. -/
theorem run_of_no_warnings_early_use :
    ∃ (script : Script) (e : RuntimeError) (x : Execution),
      Script.compile (utf8 "DISPLAY(n)\nn = 1") = .ok script ∧
      Lint.warnings Engine.initial.builtins.names script.program = [] ∧
      script.run 2 (Engine.initial.newExecution (.empty none)) = .error e x ∧ e.kind = .name ∧
      ∃ name, (e.cause = .fault (.unboundVariable name) ∨ e.cause = .fault (.unboundFunction name)) ∧
        name ∈ Program.targets script.program ∧ name ∉ Engine.initial.builtins.names := by
  have computed : ((Script.compile (utf8 "DISPLAY(n)\nn = 1")).toOption.any fun script =>
      decide (Lint.warnings Engine.initial.builtins.names script.program = []) &&
        (script.run 2 (Engine.initial.newExecution (.empty none))).failed.any
          fun ended => decide (ended.1.kind = .name)) = true := by decide +kernel
  obtain ⟨script, found, checked⟩ := (Option.any_eq_true _ _).mp computed
  obtain ⟨clean, fails⟩ := Bool.and_eq_true_iff.mp checked
  obtain ⟨⟨e, x⟩, ended, named⟩ := (Option.any_eq_true _ _).mp fails
  have compiled := toOption_compile.mp found
  have noWarnings := of_decide_eq_true clean
  have ran := Outcome.failed_eq_some.mp ended
  have kind := of_decide_eq_true named
  have held := run_of_no_warnings compiled noWarnings 2 (.empty none) ran
  exact ⟨script, e, x, compiled, noWarnings, ran, kind, held.2 kind⟩

end Script

end LoopScript
