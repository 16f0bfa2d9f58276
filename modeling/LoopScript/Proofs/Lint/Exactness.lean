/-
# LoopScript.Proofs.Lint.Exactness — one warning for each node that calls for one, in the order of the source

What a node calls for is said node by node (`TreeNode.complaint?`): an operation, a negation, a branch, or a
name or call that nothing binds. The linter collects the names that count as bound in one walk and the
warnings in another, which meets an operator before its operands, and sorts them at the end.

The walk gives the warnings of the nodes in another order (`ofExpr_perm`, `ofStmt_perm`). The nodes of a
program that was read stand at different places, one behind the other, so sorting by place brings the
warnings back into the order of the nodes, and no two of them change places that should not
(`warnings_eq`). `warnings_exact` states this of every source that compiles and every set of functions of
the host.
-/
import Mathlib.Data.List.Basic
import LoopScript.Proofs.Lint.Soundness
import LoopScript.Proofs.Tree.Nodes

namespace LoopScript

set_option autoImplicit false

/-- What a tool has to say about a node, in words, if some names count as bound. -/
def TreeNode.complaint? (isBound : Text → Prop) [DecidablePred isBound] (node : TreeNode) : Option Text :=
  match node.form with
  | .branch => some (utf8 "if statements are not supported")
  | .operation .multiplicative op => some (utf8 "operator " ++ op.spelling ++ utf8 " is not supported")
  | .operation .boolean op => some (utf8 "operator " ++ op.spelling ++ utf8 " is not supported")
  | .operation .comparison op =>
      if op = .lt then none
      else some (utf8 "comparison operator " ++ op.symbol ++ utf8 " is not supported")
  | .negation => some (utf8 "operator ! is not supported")
  | .name id => if isBound id then none else some (id ++ utf8 " is never assigned")
  | .call callee =>
      if isBound callee then none else some (utf8 "function " ++ callee ++ utf8 " is not defined")
  | .assignment _ | .literal _ _ | .operation .additive _ | .block | .loop _ => none

/-- Of two different places one is before the other. -/
theorem Position.eq_of_not_before {p q : Position} (first : ¬ p.before q = true)
    (second : ¬ q.before p = true) : p = q := by
  rw [before_iff] at first second
  have line : p.line = q.line := by omega
  have column : p.column = q.column := by omega
  cases p
  cases q
  rw [mk.injEq]
  exact ⟨line, column⟩

namespace Lint

/-! ## The warnings of a node -/

/-- The warnings about a node itself, without its parts. -/
def ofNode (isBound : Text → Bool) (node : TreeNode) : List Warning :=
  match node.form with
  | .branch => [⟨node.pos, .branch⟩]
  | .operation level op => ofOperator level op node.pos
  | .negation => [⟨node.pos, .negation⟩]
  | .name id => warnIfNot (isBound id) node.pos (.neverAssigned id)
  | .call callee => warnIfNot (isBound callee) node.pos (.undefinedFunction callee)
  | .assignment _ | .literal _ _ | .block | .loop _ => []

/-- A warning unless `fine` holds, as its place and its words. -/
theorem map_warnIfNot {fine : Bool} {P : Prop} [Decidable P] (same : fine = true ↔ P) (w : Warning) :
    (warnIfNot fine w.pos w.cause).map (fun w => (w.pos, w.message)) =
      ((if P then none else some w.message).map fun message => (w.pos, message)).toList := by
  by_cases holds : P
  · rw [warnIfNot, if_pos (same.mpr holds), if_pos holds]
    rfl
  · rw [warnIfNot, if_neg (mt same.mp holds), if_neg holds]
    rfl

/-- A node has at most one warning, which stands where the node does and says what it calls for. -/
theorem ofNode_eq (isBound : Text → Bool) (P : Text → Prop) [DecidablePred P]
    (same : ∀ name, isBound name = true ↔ P name) (node : TreeNode) :
    (ofNode isBound node).map (fun w => (w.pos, w.message)) =
      ((node.complaint? P).map fun message => (node.pos, message)).toList := by
  obtain ⟨form, pos⟩ := node
  cases form with
  | name id => exact map_warnIfNot (same id) ⟨pos, .neverAssigned id⟩
  | call callee => exact map_warnIfNot (same callee) ⟨pos, .undefinedFunction callee⟩
  | operation level op =>
      cases level with
      | comparison => exact map_warnIfNot decide_eq_true_iff ⟨pos, .comparison op⟩
      | additive | multiplicative | boolean => rfl
  | branch | negation | assignment | literal | block | loop => rfl

/-! ## The walk -/

variable (isBound : Text → Bool)

mutual

/-- The walk gives the warnings of the nodes of an expression, in an order of its own. -/
theorem ofExpr_perm : ∀ e : Expr, (ofExpr isBound e).Perm (e.nodes.flatMap (ofNode isBound))
  | .name _ _ => by simp [ofExpr, Expr.nodes, ofNode]
  | .literal _ _ _ => by simp [ofExpr, Expr.nodes, ofNode]
  | .call _ args _ => by
      simp only [ofExpr, Expr.nodes, List.flatMap_cons, ofNode]
      exact (ofExprs_perm args).append_left _
  | .binary level op left right pos => by
      simp only [ofExpr, Expr.nodes, List.flatMap_append, List.flatMap_cons, ofNode]
      -- The operator comes first in the walk, and between the operands in the source.
      have operands : (ofExpr isBound left ++ (ofOperator level op pos ++ ofExpr isBound right)).Perm
          (left.nodes.flatMap (ofNode isBound) ++
            (ofOperator level op pos ++ right.nodes.flatMap (ofNode isBound))) :=
        (ofExpr_perm left).append ((ofExpr_perm right).append_left _)
      exact (List.perm_append_comm_assoc _ _ _).trans operands
  | .negation operand _ => by
      simp only [ofExpr, Expr.nodes, List.flatMap_cons, ofNode]
      exact (ofExpr_perm operand).cons _

theorem ofExprs_perm : ∀ es : List Expr,
    (ofExprs isBound es).Perm ((Expr.nodesAll es).flatMap (ofNode isBound))
  | [] => .nil
  | e :: rest => by
      simp only [ofExprs, Expr.nodesAll, List.flatMap_append]
      exact (ofExpr_perm e).append (ofExprs_perm rest)

end

mutual

/-- The walk gives the warnings of the nodes of a statement, in an order of its own. -/
theorem ofStmt_perm : ∀ s : Stmt, (ofStmt isBound s).Perm (s.nodes.flatMap (ofNode isBound))
  | .assign _ value _ => by
      simp only [ofStmt, Stmt.nodes, List.flatMap_cons, ofNode, List.nil_append]
      exact ofExpr_perm isBound value
  | .call callee args pos => ofExpr_perm isBound (.call callee args pos)
  | .block body _ => by
      simp only [ofStmt, Stmt.nodes, List.flatMap_cons, ofNode, List.nil_append]
      exact ofStmts_perm body
  | .loop _ condition body _ alternative _ => by
      simp only [ofStmt, Stmt.nodes, List.flatMap_append, List.flatMap_cons, ofNode, List.nil_append,
        List.cons_append, List.append_assoc]
      exact (ofExpr_perm isBound condition).append
        ((ofStmts_perm body).append (ofAlternative_perm alternative))
  | .branch condition body _ alternative _ => by
      simp only [ofStmt, Stmt.nodes, List.flatMap_append, List.flatMap_cons, ofNode, List.nil_append,
        List.cons_append, List.append_assoc]
      exact ((ofExpr_perm isBound condition).append
        ((ofStmts_perm body).append (ofAlternative_perm alternative))).cons _

theorem ofStmts_perm : ∀ ss : List Stmt,
    (ofStmts isBound ss).Perm ((Stmt.nodesAll ss).flatMap (ofNode isBound))
  | [] => .nil
  | s :: rest => by
      simp only [ofStmts, Stmt.nodesAll, List.flatMap_append]
      exact (ofStmt_perm s).append (ofStmts_perm rest)

theorem ofAlternative_perm : ∀ other : Option Stmt,
    (ofAlternative isBound other).Perm ((Stmt.nodesOther other).flatMap (ofNode isBound))
  | none => .nil
  | some s => ofStmt_perm s

end

/-! ## The order -/

/-- A node has at most one warning. -/
theorem length_ofNode_le (node : TreeNode) : (ofNode isBound node).length ≤ 1 := by
  have same := congrArg List.length (ofNode_eq isBound (isBound · = true) (fun _ => Iff.rfl) node)
  rw [List.length_map] at same
  rw [same]
  cases node.complaint? (isBound · = true) <;> simp

/-- A warning about a node stands where the node does. -/
theorem pos_of_mem_ofNode {node : TreeNode} {w : Warning} (member : w ∈ ofNode isBound node) :
    w.pos = node.pos := by
  have listed : (w.pos, w.message) ∈ (ofNode isBound node).map fun w => (w.pos, w.message) :=
    List.mem_map_of_mem member
  rw [ofNode_eq isBound (isBound · = true) fun _ => Iff.rfl] at listed
  cases complaint : node.complaint? (isBound · = true) with
  | none => simp [complaint] at listed
  | some message =>
      simp only [complaint, Option.map_some, Option.toList_some, List.mem_singleton, Prod.mk.injEq] at listed
      exact listed.1

/-- The warnings of nodes that stand one behind the other do so as well. -/
theorem flatMap_ofNode_increasing {nodes : List TreeNode}
    (increasing : nodes.Pairwise fun m n => m.pos.before n.pos = true) :
    (nodes.flatMap (ofNode isBound)).Pairwise fun v w => v.pos.before w.pos = true := by
  rw [List.pairwise_flatMap]
  constructor
  · intro node _
    have short := length_ofNode_le isBound node
    cases reported : ofNode isBound node with
    | nil => exact .nil
    | cons w more =>
        rw [reported, List.length_cons] at short
        rw [List.length_eq_zero_iff.mp (Nat.le_zero.mp (Nat.le_of_succ_le_succ short))]
        exact List.pairwise_singleton _ _
  · refine increasing.imp fun before v first w second => ?_
    rw [pos_of_mem_ofNode isBound first, pos_of_mem_ofNode isBound second]
    exact before

theorem notAfter_iff {v w : Warning} : notAfter v w = true ↔ ¬ w.pos.before v.pos = true := by
  simp [notAfter]

theorem notAfter_trans (u v w : Warning) (first : notAfter u v = true) (second : notAfter v w = true) :
    notAfter u w = true := by
  rw [notAfter_iff, Position.before_iff] at *
  omega

theorem notAfter_total (v w : Warning) : (notAfter v w || notAfter w v) = true := by
  rw [Bool.or_eq_true, notAfter_iff, notAfter_iff, Position.before_iff, Position.before_iff]
  omega

/-- Where places increase, one place has one warning. -/
theorem eq_of_pos_eq {ws : List Warning} (increasing : ws.Pairwise fun v w => v.pos.before w.pos = true)
    {v w : Warning} (first : v ∈ ws) (second : w ∈ ws) (same : v.pos = w.pos) : v = w := by
  have distinct : ∀ {v w : Warning}, v.pos.before w.pos = true → v.pos ≠ w.pos := by
    intro v w before same
    rw [same, Position.before_iff] at before
    omega
  have once : ∀ v ∈ ws, ∀ w ∈ ws, v.pos = w.pos → v = w := by
    apply List.Pairwise.forall_of_forall_of_flip
    · exact fun _ _ _ => rfl
    · exact increasing.imp fun before same => absurd same (distinct before)
    · exact increasing.imp fun before same => absurd same.symm (distinct before)
  exact once v first w second same

/-- A list in which places increase is what sorting makes of its members in any order. -/
theorem mergeSort_eq {ws sorted : List Warning} (perm : ws.Perm sorted)
    (increasing : sorted.Pairwise fun v w => v.pos.before w.pos = true) :
    ws.mergeSort notAfter = sorted := by
  have ordered : (ws.mergeSort notAfter).Pairwise fun v w => notAfter v w = true :=
    List.pairwise_mergeSort notAfter_trans notAfter_total ws
  have already : sorted.Pairwise fun v w => notAfter v w = true := by
    refine increasing.imp fun {v w} before => ?_
    rw [Position.before_iff] at before
    rw [notAfter_iff, Position.before_iff]
    omega
  refine List.Perm.eq_of_pairwise ?_ ordered already ((List.mergeSort_perm ws _).trans perm)
  -- Two members that may stand in either order stand at one place, so they are one.
  intro v w first second before after
  have listed : v ∈ sorted := perm.subset (List.mem_mergeSort.mp first)
  rw [notAfter_iff] at before after
  exact eq_of_pos_eq increasing listed second (Position.eq_of_not_before after before)

/-- The warnings about a program that was read are those of its nodes, in their order. -/
theorem warnings_eq {source : Text} {program : Program} (read : Program.read source = .ok program)
    (builtins : List Text) :
    warnings builtins program = program.nodes.flatMap (ofNode (bound builtins program)) := by
  have walk : (ofStmts (bound builtins program) program).Perm
      (program.nodes.flatMap (ofNode (bound builtins program))) := ofStmts_perm _ program
  exact mergeSort_eq walk (flatMap_ofNode_increasing _ (Program.nodes_increasing read))

end Lint

namespace Script

/-- **The report of the linter is exact and in the order of the source.** Whatever functions the host has,
a source that compiles is reported with one warning for each node of its tree that calls for one, where
the node stands and in its words: for branches, products, boolean operations, negations and comparisons
but `<`, and for names and calls that are neither functions of the host nor assigned to anywhere in the
program. There is no other warning. Each warning stands strictly behind the one before it, so no two
stand at one place. -/
theorem warnings_exact {source : Text} {script : Script} (compiled : Script.compile source = .ok script)
    (builtins : List Text) :
    (Lint.warnings builtins script.program).map (fun w => (w.pos, w.message)) =
      (Program.nodes script.program).filterMap (fun node =>
        (node.complaint? fun name => name ∈ builtins ∨ script.program.Assigns name).map (node.pos, ·)) ∧
    (Lint.warnings builtins script.program).Pairwise (fun v w => v.pos.before w.pos = true) := by
  obtain ⟨read, -⟩ := compile_eq_ok.mp compiled
  have counted : ∀ name, Lint.bound builtins script.program name = true ↔
      name ∈ builtins ∨ script.program.Assigns name := by
    intro name
    rw [Lint.bound_iff, Program.mem_targets_iff]
  rw [Lint.warnings_eq read]
  constructor
  · rw [List.map_flatMap, List.filterMap_eq_flatMap_toList]
    apply List.flatMap_congr
    intro node _
    exact Lint.ofNode_eq _ _ counted node
  · exact Lint.flatMap_ofNode_increasing _ (Program.nodes_increasing read)

/-- A branch with another as its alternative; the second assigns to a name that the first one uses. -/
def suspicious : Text :=
  utf8 "if !a and 2 * b >= f(c) \x7b\n  DISPLAY(a < a)\n\x7d else if c \x7b\n  a = 1 - b\n\x7d"

def suspicions : List (Position × Text) :=
  [(⟨1, 1⟩, utf8 "if statements are not supported"),
    (⟨1, 4⟩, utf8 "operator ! is not supported"),
    (⟨1, 7⟩, utf8 "operator and is not supported"),
    (⟨1, 13⟩, utf8 "operator * is not supported"),
    (⟨1, 15⟩, utf8 "b is never assigned"),
    (⟨1, 17⟩, utf8 "comparison operator >= is not supported"),
    (⟨1, 20⟩, utf8 "function f is not defined"),
    (⟨1, 22⟩, utf8 "c is never assigned"),
    (⟨3, 8⟩, utf8 "if statements are not supported"),
    (⟨3, 11⟩, utf8 "c is never assigned"),
    (⟨4, 11⟩, utf8 "b is never assigned")]

/-- The report says this, and stands in the order of the source. -/
theorem warnings_exact_suspicious :
    ∃ script : Script, Script.compile suspicious = .ok script ∧
      (Lint.warnings Engine.initial.builtins.names script.program).map (fun w => (w.pos, w.message)) =
        suspicions ∧
      (Lint.warnings Engine.initial.builtins.names script.program).Pairwise
        fun v w => v.pos.before w.pos = true := by
  have computed : ((Script.compile suspicious).toOption.any fun script =>
      decide ((Program.nodes script.program).filterMap (fun node =>
        (node.complaint? fun name => name ∈ Engine.initial.builtins.names ∨
          script.program.Assigns name).map (node.pos, ·)) = suspicions)) = true := by decide +kernel
  obtain ⟨script, found, checked⟩ := (Option.any_eq_true _ _).mp computed
  have listed := of_decide_eq_true checked
  have compiled := toOption_compile.mp found
  obtain ⟨exact, increasing⟩ := warnings_exact compiled Engine.initial.builtins.names
  exact ⟨script, compiled, exact.trans listed, increasing⟩

end Script

end LoopScript
