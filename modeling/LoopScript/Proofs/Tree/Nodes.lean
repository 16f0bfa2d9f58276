/-
# LoopScript.Proofs.Tree.Nodes — the nodes of a tree in the order of the source

`Program.nodes` lists every node of a program once: its form, without its parts, and its place. The list
is in the order of the source, so that an operation stands between its operands and everything else in
front of its parts. Whatever a tool says node by node can be compared with this list, whichever way the
tool goes through the tree.

A node stands for one token (`LoopScript.Proofs.Tree.Marks`), so no two nodes of a program that was read
stand at one place: their places increase (`Program.nodes_increasing`). The names that the program assigns
to are those of its assignments, at whatever depth these stand (`Program.targets_eq`).
-/
import LoopScript.Proofs.Tree.Marks

namespace LoopScript

set_option autoImplicit false

inductive TreeNode.Form where
  | assignment (target : Text)
  | call (callee : Text)
  | name (id : Text)
  | literal (kind : LiteralKind) (text : Text)
  | operation (level : Level) (op : Operator)
  | negation
  | block
  | loop (word : Text)
  | branch
deriving DecidableEq, Repr

/-- A node of a tree: its form and where it stands. -/
structure TreeNode where
  form : TreeNode.Form
  pos : Position
deriving DecidableEq, Repr

mutual

/-- The nodes of an expression; an operation stands between its operands. -/
def Expr.nodes : Expr → List TreeNode
  | .name id pos => [⟨.name id, pos⟩]
  | .literal kind text pos => [⟨.literal kind text, pos⟩]
  | .call callee args pos => ⟨.call callee, pos⟩ :: Expr.nodesAll args
  | .binary level op left right pos => left.nodes ++ ⟨.operation level op, pos⟩ :: right.nodes
  | .negation operand pos => ⟨.negation, pos⟩ :: operand.nodes

def Expr.nodesAll : List Expr → List TreeNode
  | [] => []
  | e :: rest => e.nodes ++ Expr.nodesAll rest

end

mutual

/-- The nodes of a statement. The body of a loop or a branch is a block of its own. -/
def Stmt.nodes : Stmt → List TreeNode
  | .assign target value pos => ⟨.assignment target, pos⟩ :: value.nodes
  | .call callee args pos => ⟨.call callee, pos⟩ :: Expr.nodesAll args
  | .block body pos => ⟨.block, pos⟩ :: Stmt.nodesAll body
  | .loop word condition body bodyPos alternative pos =>
      ⟨.loop word, pos⟩ :: condition.nodes ++ ⟨.block, bodyPos⟩ :: Stmt.nodesAll body ++
        Stmt.nodesOther alternative
  | .branch condition body bodyPos alternative pos =>
      ⟨.branch, pos⟩ :: condition.nodes ++ ⟨.block, bodyPos⟩ :: Stmt.nodesAll body ++
        Stmt.nodesOther alternative

def Stmt.nodesAll : List Stmt → List TreeNode
  | [] => []
  | s :: rest => s.nodes ++ Stmt.nodesAll rest

def Stmt.nodesOther : Option Stmt → List TreeNode
  | none => []
  | some s => s.nodes

end

/-- The nodes of a program, in the order of the source. -/
def Program.nodes (p : Program) : List TreeNode := Stmt.nodesAll p

/-! ## The tokens that nodes stand for -/

/-- The text of the token that a node stands for. -/
def TreeNode.Form.text : TreeNode.Form → Text
  | .assignment target => target
  | .call callee => callee
  | .name id => id
  | .literal _ text => text
  | .operation _ op => op.spelling
  | .negation => utf8 "!"
  | .block => utf8 "\x7b"
  | .loop word => word
  | .branch => utf8 "if"

def TreeNode.mark (node : TreeNode) : Mark := ⟨node.form.text, node.pos⟩

mutual

theorem Expr.map_mark_nodes : ∀ e : Expr, e.nodes.map TreeNode.mark = e.marks
  | .name _ _ => rfl
  | .literal _ _ _ => rfl
  | .call _ args _ => by
      rw [Expr.nodes, Expr.marks, List.map_cons, Expr.map_mark_nodesAll args]
      rfl
  | .binary _ _ left right _ => by
      rw [Expr.nodes, Expr.marks, List.map_append, List.map_cons, Expr.map_mark_nodes left,
        Expr.map_mark_nodes right]
      rfl
  | .negation operand _ => by
      rw [Expr.nodes, Expr.marks, List.map_cons, Expr.map_mark_nodes operand]
      rfl

theorem Expr.map_mark_nodesAll : ∀ es : List Expr, (Expr.nodesAll es).map TreeNode.mark = Expr.marksAll es
  | [] => rfl
  | e :: rest => by
      rw [Expr.nodesAll, Expr.marksAll, List.map_append, Expr.map_mark_nodes e, Expr.map_mark_nodesAll rest]

end

mutual

theorem Stmt.map_mark_nodes : ∀ s : Stmt, s.nodes.map TreeNode.mark = s.marks
  | .assign _ value _ => by
      rw [Stmt.nodes, Stmt.marks, List.map_cons, Expr.map_mark_nodes value]
      rfl
  | .call _ args _ => by
      rw [Stmt.nodes, Stmt.marks, List.map_cons, Expr.map_mark_nodesAll args]
      rfl
  | .block body _ => by
      rw [Stmt.nodes, Stmt.marks, List.map_cons, Stmt.map_mark_nodesAll body]
      rfl
  | .loop _ condition body _ alternative _ => by
      simp only [Stmt.nodes, Stmt.marks, List.map_append, List.map_cons, Expr.map_mark_nodes condition,
        Stmt.map_mark_nodesAll body, Stmt.map_mark_nodesOther alternative]
      rfl
  | .branch condition body _ alternative _ => by
      simp only [Stmt.nodes, Stmt.marks, List.map_append, List.map_cons, Expr.map_mark_nodes condition,
        Stmt.map_mark_nodesAll body, Stmt.map_mark_nodesOther alternative]
      rfl

theorem Stmt.map_mark_nodesAll : ∀ ss : List Stmt, (Stmt.nodesAll ss).map TreeNode.mark = Stmt.marksAll ss
  | [] => rfl
  | s :: rest => by
      rw [Stmt.nodesAll, Stmt.marksAll, List.map_append, Stmt.map_mark_nodes s, Stmt.map_mark_nodesAll rest]

theorem Stmt.map_mark_nodesOther : ∀ other : Option Stmt,
    (Stmt.nodesOther other).map TreeNode.mark = Stmt.marksOther other
  | none => rfl
  | some s => Stmt.map_mark_nodes s

end

/-- The nodes of a program that was read stand one behind the other. -/
theorem Program.nodes_increasing {source : Text} {p : Program} (read : Program.read source = .ok p) :
    p.nodes.Pairwise fun m n => m.pos.before n.pos = true := by
  have marks : p.nodes.map TreeNode.mark =
      ((Token.tokens source).filter fun t => t.kind ∉ Token.separators).map Token.mark := by
    rw [Program.nodes, Stmt.map_mark_nodesAll]
    exact Program.marks_of_read read
  have increasing : (p.nodes.map TreeNode.mark).Pairwise fun m n => m.pos.before n.pos = true := by
    rw [marks, List.pairwise_map]
    exact (Token.tokens_increasing source).sublist List.filter_sublist
  rwa [List.pairwise_map] at increasing

/-! ## The names that are assigned to -/

def TreeNode.target? (node : TreeNode) : Option Text :=
  match node.form with
  | .assignment target => some target
  | _ => none

mutual

theorem Expr.filterMap_target? : ∀ e : Expr, e.nodes.filterMap TreeNode.target? = []
  | .name _ _ => rfl
  | .literal _ _ _ => rfl
  | .call _ args _ => Expr.filterMap_target?_all args
  | .binary _ _ left right _ => by
      rw [Expr.nodes, List.filterMap_append, Expr.filterMap_target? left]
      exact Expr.filterMap_target? right
  | .negation operand _ => Expr.filterMap_target? operand

theorem Expr.filterMap_target?_all : ∀ es : List Expr, (Expr.nodesAll es).filterMap TreeNode.target? = []
  | [] => rfl
  | e :: rest => by
      rw [Expr.nodesAll, List.filterMap_append, Expr.filterMap_target? e]
      exact Expr.filterMap_target?_all rest

end

mutual

theorem Stmt.targets_eq : ∀ s : Stmt, s.targets = s.nodes.filterMap TreeNode.target?
  | .assign target value _ => by
      rw [Stmt.nodes, Stmt.targets, List.filterMap_cons, Expr.filterMap_target? value]
      rfl
  | .call _ args _ => (Expr.filterMap_target?_all args).symm
  | .block body _ => Stmt.targetsAll_eq_nodes body
  | .loop _ condition body _ alternative _ => by
      simp [Stmt.targets, Stmt.nodes, TreeNode.target?, List.filterMap_cons, Expr.filterMap_target? condition,
        Stmt.targetsAll_eq_nodes body, Stmt.targetsOther_eq_nodes alternative]
  | .branch condition body _ alternative _ => by
      simp [Stmt.targets, Stmt.nodes, TreeNode.target?, List.filterMap_cons, Expr.filterMap_target? condition,
        Stmt.targetsAll_eq_nodes body, Stmt.targetsOther_eq_nodes alternative]

theorem Stmt.targetsAll_eq_nodes : ∀ ss : List Stmt,
    Stmt.targets.targetsAll ss = (Stmt.nodesAll ss).filterMap TreeNode.target?
  | [] => rfl
  | s :: rest => by
      rw [Stmt.targets.targetsAll, Stmt.nodesAll, List.filterMap_append, Stmt.targets_eq s,
        Stmt.targetsAll_eq_nodes rest]

theorem Stmt.targetsOther_eq_nodes : ∀ other : Option Stmt,
    Stmt.targets.targetsOpt other = (Stmt.nodesOther other).filterMap TreeNode.target?
  | none => rfl
  | some s => Stmt.targets_eq s

end

/-- The names that a program may assign to are those of its assignments. -/
theorem Program.targets_eq (p : Program) : Program.targets p = p.nodes.filterMap TreeNode.target? := by
  rw [← Stmt.targetsAll_eq, Stmt.targetsAll_eq_nodes]
  rfl

/-- Some statement of the program assigns to the name, wherever it stands. -/
def Program.Assigns (p : Program) (name : Text) : Prop := ∃ node ∈ p.nodes, node.form = .assignment name

instance (p : Program) : DecidablePred p.Assigns :=
  fun name => inferInstanceAs (Decidable (∃ node ∈ p.nodes, node.form = .assignment name))

theorem Program.mem_targets_iff {p : Program} {name : Text} :
    name ∈ Program.targets p ↔ p.Assigns name := by
  rw [Program.targets_eq, List.mem_filterMap]
  constructor
  · rintro ⟨node, member, target⟩
    refine ⟨node, member, ?_⟩
    unfold TreeNode.target? at target
    split at target
    · next form =>
        cases target
        exact form
    · cases target
  · rintro ⟨node, member, form⟩
    exact ⟨node, member, by rw [TreeNode.target?, form]⟩

end LoopScript
