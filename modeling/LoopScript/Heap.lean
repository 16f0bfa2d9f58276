/-
# LoopScript.Heap — tables of bindings, held by address

Who holds the address of a table sees every write to it. A copy is a table of its own: it gets the next
free address, so a write to either of the two leaves the other as it is (`read_write_ne`,
`read_alloc_of_lt`).
-/
import LoopScript.Env

namespace LoopScript

set_option autoImplicit false

abbrev Heap.Address := Nat

/-- Tables of bindings. The one at an address is the one at that index. -/
structure Heap where
  tables : Array Env

namespace Heap

def empty : Heap := ⟨#[]⟩

/-- The number of tables, which is the next free address. -/
def size (h : Heap) : Nat := h.tables.size

/-- The table at an address; nothing is bound where there is none. -/
def read (h : Heap) (a : Address) : Env := (h.tables[a]?).getD .empty

def write (h : Heap) (a : Address) (env : Env) : Heap := ⟨h.tables.setIfInBounds a env⟩

/-- Put a table at the next free address. -/
def alloc (h : Heap) (env : Env) : Address × Heap := (h.size, ⟨h.tables.push env⟩)

def define (h : Heap) (a : Address) (name : Text) (v : Value) : Heap :=
  h.write a ((h.read a).insert name v)

variable {h : Heap} {a b : Address} {env : Env}

@[simp]
theorem size_write : (h.write a env).size = h.size := Array.size_setIfInBounds

@[simp]
theorem alloc_fst : (h.alloc env).1 = h.size := rfl

@[simp]
theorem size_alloc : (h.alloc env).2.size = h.size + 1 := Array.size_push env

theorem read_write_self (held : a < h.size) : (h.write a env).read a = env := by
  rw [read, write, Array.getElem?_setIfInBounds_self_of_lt held, Option.getD_some]

/-- A write leaves the tables at other addresses. -/
theorem read_write_ne (other : b ≠ a) : (h.write a env).read b = h.read b := by
  rw [read, write, Array.getElem?_setIfInBounds_ne other.symm, read]

@[simp]
theorem read_alloc_self : (h.alloc env).2.read h.size = env := by
  rw [read, alloc, size, Array.getElem?_push_size, Option.getD_some]

/-- A new table leaves those that are held already. -/
theorem read_alloc_of_lt (held : a < h.size) : (h.alloc env).2.read a = h.read a := by
  rw [read, alloc, Array.getElem?_push_lt held, read, Array.getElem?_eq_getElem held]

end Heap

end LoopScript
