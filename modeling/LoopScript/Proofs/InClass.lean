/-
# LoopScript.Proofs.InClass — operators stand in nodes of their own level

Trees built by hand may put any operator into any node and may hold literals of no kind. A tree that was
read does neither (`Program.inClass_of_read`): the grammar builds an operation at the level of its
operator, and a literal from a token that is one.
-/
import LoopScript.Proofs.Parser

namespace LoopScript

set_option autoImplicit false

mutual

/-- Every operator stands in a node of its level, and every literal has a kind. -/
def Expr.InClass : Expr → Prop
  | .name _ _ => True
  | .literal kind _ _ => kind ≠ .other
  | .call _ args _ => Expr.AllInClass args
  | .binary level op left right _ => op.level? = some level ∧ left.InClass ∧ right.InClass
  | .negation operand _ => operand.InClass

def Expr.AllInClass : List Expr → Prop
  | [] => True
  | e :: rest => e.InClass ∧ Expr.AllInClass rest

end

mutual

def Stmt.InClass : Stmt → Prop
  | .assign _ value _ => value.InClass
  | .call _ args _ => Expr.AllInClass args
  | .block body _ => Stmt.AllInClass body
  | .loop _ condition body _ alternative _ =>
      condition.InClass ∧ Stmt.AllInClass body ∧ Stmt.OtherInClass alternative
  | .branch condition body _ alternative _ =>
      condition.InClass ∧ Stmt.AllInClass body ∧ Stmt.OtherInClass alternative

def Stmt.AllInClass : List Stmt → Prop
  | [] => True
  | s :: rest => s.InClass ∧ Stmt.AllInClass rest

def Stmt.OtherInClass : Option Stmt → Prop
  | none => True
  | some s => s.InClass

end

theorem Expr.AllInClass.of_mem : ∀ {es : List Expr}, AllInClass es → ∀ e ∈ es, e.InClass
  | _ :: _, all, e, member => by
      rcases List.mem_cons.mp member with rfl | member
      · exact all.1
      · exact of_mem all.2 e member

theorem Stmt.AllInClass.of_mem : ∀ {ss : List Stmt}, AllInClass ss → ∀ s ∈ ss, s.InClass
  | _ :: _, all, s, member => by
      rcases List.mem_cons.mp member with rfl | member
      · exact all.1
      · exact of_mem all.2 s member

theorem Stmt.AllInClass.append : ∀ {ss us : List Stmt}, AllInClass ss → AllInClass us →
    AllInClass (ss ++ us)
  | [], _, _, second => second
  | _ :: _, _, first, second => ⟨first.1, first.2.append second⟩

namespace Grammar

theorem Constant.ne_other {k : Token.Kind} {kind : LiteralKind} (constant : Constant k kind) :
    kind ≠ .other := by
  cases constant <;> exact LiteralKind.noConfusion

mutual

theorem Expression.inClass {s : Stratum} {ts : List Token} {e : Expr} :
    Expression s ts e → e.InClass
  | .operand derived => derived.inClass
  | .operation _ known left right => ⟨known, left.inClass, right.inClass⟩
  | .plain derived => derived.inClass
  | .negation _ derived => derived.inClass
  | .constant kind => kind.ne_other
  | .name _ => trivial
  | .call derived => derived.inClass
  | .group _ derived _ => derived.inClass

theorem Expressions.inClass {ts : List Token} {es : List Expr} :
    Expressions ts es → Expr.AllInClass es
  | .last derived => ⟨derived.inClass, trivial⟩
  | .more derived _ more => ⟨derived.inClass, more.inClass⟩

theorem Call.inClass {ts : List Token} {name : Token} {args : List Expr} :
    Call ts name args → Expr.AllInClass args
  | .empty _ _ _ => trivial
  | .arguments _ _ derived _ => derived.inClass

end

mutual

theorem Line.inClass {ts : List Token} {one : List Stmt} : Line ts one → Stmt.AllInClass one
  | .lone _ => trivial
  | .assignment _ _ derived _ => ⟨derived.inClass, trivial⟩
  | .call derived _ => ⟨derived.inClass, trivial⟩
  | .branch _ derived => ⟨derived.inClass, trivial⟩
  | .loop _ derived => ⟨derived.inClass, trivial⟩

theorem Lines.inClass {ts : List Token} {p : List Stmt} : Lines ts p → Stmt.AllInClass p
  | .nil => trivial
  | .cons line lines => line.inClass.append lines.inClass

theorem Block.inClass {ts : List Token} {body : List Stmt} {pos : Position} :
    Block ts body pos → Stmt.AllInClass body
  | .braces _ derived _ => derived.inClass

theorem Clause.inClass {ts : List Token} {c : Parser.Clause} :
    Clause ts c → c.condition.InClass ∧ Stmt.AllInClass c.body ∧ Stmt.OtherInClass c.alternative
  | .plain condition body => ⟨condition.inClass, body.inClass, trivial⟩
  | .otherwise condition body _ other => ⟨condition.inClass, body.inClass, other.inClass⟩

theorem Alternative.inClass {ts : List Token} {s : Stmt} : Alternative ts s → s.InClass
  | .block body => body.inClass
  | .branch _ derived => derived.inClass

end

end Grammar

/-- A program that was read is in class. -/
theorem Program.inClass_of_read {source : Text} {p : Program} (read : Program.read source = .ok p) :
    Stmt.AllInClass p :=
  (Program.read_eq_ok.mp read).inClass

end LoopScript
