/-
# LoopScript.Table — finite maps from names, in the order of the names

A `Table` binds names to things. Its entries are kept in increasing order of the names, compared byte
by byte, so a table lists its names sorted and each of them once. A table is determined by what it
binds each name to (`ext_get?`).

Main statements: `get?_insert` says what a name is bound to after an insertion, and `mem_names` that
the listed names are those that are bound.
-/
import LoopScript.Text.Basic

namespace LoopScript

set_option autoImplicit false

/-- A finite map from names. -/
structure Table (α : Type) where
  entries : List (Text × α)
  sorted : (entries.map Prod.fst).Pairwise (· < ·)

namespace Table

variable {α : Type}

/-- Put an entry in its place, over an entry of the same name if there is one. -/
def insertEntry (name : Text) (a : α) : List (Text × α) → List (Text × α)
  | [] => [(name, a)]
  | e :: rest =>
      if name < e.1 then (name, a) :: e :: rest
      else if name = e.1 then (name, a) :: rest
      else e :: insertEntry name a rest

/-- What the first entry of a name holds. -/
def findEntry (name : Text) : List (Text × α) → Option α
  | [] => none
  | e :: rest => if e.1 = name then some e.2 else findEntry name rest

theorem mem_names_insertEntry {name n : Text} {a : α} :
    ∀ {es : List (Text × α)},
      n ∈ (insertEntry name a es).map Prod.fst ↔ n = name ∨ n ∈ es.map Prod.fst
  | [] => by simp [insertEntry]
  | e :: rest => by
      unfold insertEntry
      split
      · simp
      · split
        · next h => simp [h]
        · have ih : n ∈ (insertEntry name a rest).map Prod.fst ↔ n = name ∨ n ∈ rest.map Prod.fst :=
            mem_names_insertEntry
          simp only [List.map_cons, List.mem_cons, ih]
          constructor
          · rintro (h | h | h)
            · exact .inr (.inl h)
            · exact .inl h
            · exact .inr (.inr h)
          · rintro (h | h | h)
            · exact .inr (.inl h)
            · exact .inl h
            · exact .inr (.inr h)

theorem sorted_insertEntry (name : Text) (a : α) :
    ∀ es : List (Text × α), (es.map Prod.fst).Pairwise (· < ·) →
      ((insertEntry name a es).map Prod.fst).Pairwise (· < ·)
  | [], _ => by simp [insertEntry]
  | e :: rest, h => by
      simp only [List.map_cons, List.pairwise_cons] at h
      unfold insertEntry
      split
      · next lt =>
          simp only [List.map_cons, List.pairwise_cons]
          refine ⟨fun n hn => ?_, h⟩
          rcases List.mem_cons.mp hn with rfl | hn
          · exact lt
          · exact List.lt_trans lt (h.1 n hn)
      · next not_lt =>
          split
          · next eq =>
              simp only [List.map_cons, List.pairwise_cons]
              exact ⟨eq ▸ h.1, h.2⟩
          · next ne =>
              simp only [List.map_cons, List.pairwise_cons]
              refine ⟨fun n hn => ?_, sorted_insertEntry name a rest h.2⟩
              rcases mem_names_insertEntry.mp hn with rfl | hn
              · exact Std.lt_of_le_of_ne (List.not_lt.mp not_lt) (Ne.symm ne)
              · exact h.1 n hn

def empty : Table α := ⟨[], .nil⟩

/-- Bind a name, over what it was bound to before. -/
def insert (t : Table α) (name : Text) (a : α) : Table α :=
  ⟨insertEntry name a t.entries, sorted_insertEntry name a t.entries t.sorted⟩

def get? (t : Table α) (name : Text) : Option α := findEntry name t.entries

/-- The bound names, in increasing order. -/
def names (t : Table α) : List Text := t.entries.map Prod.fst

/-! ## Looking up -/

theorem findEntry_insertEntry (name n : Text) (a : α) :
    ∀ es : List (Text × α),
      findEntry n (insertEntry name a es) = if n = name then some a else findEntry n es
  | [] => by
      by_cases h : n = name
      · simp [insertEntry, findEntry, h]
      · simp [insertEntry, findEntry, h, Ne.symm h]
  | e :: rest => by
      unfold insertEntry
      split
      · by_cases h : n = name
        · simp [findEntry, h]
        · simp [findEntry, h, Ne.symm h]
      · split
        · next eq =>
            by_cases h : n = name
            · simp [findEntry, h]
            · have ne : ¬ e.1 = n := fun he => h (he ▸ eq.symm)
              simp [findEntry, h, Ne.symm h, ne]
        · next ne =>
            by_cases he : e.1 = n
            · have : ¬ n = name := fun hn => ne (hn ▸ he.symm)
              simp [findEntry, he, this]
            · simp [findEntry, he, findEntry_insertEntry name n a rest]

/-- After an insertion the name is bound to what was inserted, and every other name as before. -/
theorem get?_insert (t : Table α) (name n : Text) (a : α) :
    (t.insert name a).get? n = if n = name then some a else t.get? n :=
  findEntry_insertEntry name n a t.entries

theorem get?_empty (n : Text) : (empty : Table α).get? n = none := rfl

theorem findEntry_isSome {n : Text} :
    ∀ {es : List (Text × α)}, (findEntry n es).isSome ↔ n ∈ es.map Prod.fst
  | [] => by simp [findEntry]
  | e :: rest => by
      have ih : (findEntry n rest).isSome ↔ n ∈ rest.map Prod.fst := findEntry_isSome
      unfold findEntry
      split
      · next h => simp [h]
      · next h => simp only [ih, List.map_cons, List.mem_cons, Ne.symm h, false_or]

/-- The listed names are those that are bound. -/
theorem mem_names {t : Table α} {n : Text} : n ∈ t.names ↔ (t.get? n).isSome :=
  findEntry_isSome.symm

theorem findEntry_of_mem {n : Text} {a : α} {es : List (Text × α)}
    (sorted : (es.map Prod.fst).Pairwise (· < ·)) (member : (n, a) ∈ es) : findEntry n es = some a := by
  induction es with
  | nil => cases member
  | cons e rest ih =>
      rw [List.map_cons, List.pairwise_cons] at sorted
      rcases List.mem_cons.mp member with rfl | later
      · rw [findEntry, if_pos rfl]
      · have less := sorted.1 n (List.mem_map.mpr ⟨(n, a), later, rfl⟩)
        have other : ¬e.1 = n := by
          intro same
          rw [same] at less
          exact List.lt_irrefl n less
        rw [findEntry, if_neg other]
        exact ih sorted.2 later

/-- A table binds the name of an entry to what the entry holds. -/
theorem get?_of_mem {t : Table α} {n : Text} {a : α} (member : (n, a) ∈ t.entries) :
    t.get? n = some a :=
  findEntry_of_mem t.sorted member

theorem eq_of_findEntry :
    ∀ {es fs : List (Text × α)}, (es.map Prod.fst).Pairwise (· < ·) →
      (fs.map Prod.fst).Pairwise (· < ·) → (∀ n, findEntry n es = findEntry n fs) → es = fs
  | [], [], _, _, _ => rfl
  | [], f :: fs, _, _, same => by simpa [findEntry] using same f.1
  | e :: es, [], _, _, same => by simpa [findEntry] using same e.1
  | e :: es, f :: fs, he, hf, same => by
      simp only [List.map_cons, List.pairwise_cons] at he hf
      have least : ∀ {g : Text × α} {gs : List (Text × α)} {n : Text},
          (∀ m ∈ gs.map Prod.fst, g.1 < m) → (findEntry n (g :: gs)).isSome → g.1 ≤ n := by
        intro g gs n lower found
        rcases List.mem_cons.mp (findEntry_isSome.mp found) with h | h
        · exact h ▸ List.le_refl _
        · exact List.le_of_lt (lower n h)
      have first : e.1 = f.1 := by
        refine List.le_antisymm (least he.1 ?_) (least hf.1 ?_)
        · rw [same]; simp [findEntry]
        · rw [← same]; simp [findEntry]
      have value : e.2 = f.2 := by
        have := same e.1
        rw [findEntry, if_pos rfl, findEntry, if_pos first.symm] at this
        exact Option.some.inj this
      have rest : es = fs := by
        refine eq_of_findEntry he.2 hf.2 fun n => ?_
        by_cases h : e.1 = n
        · have absent : ∀ {gs : List (Text × α)}, (∀ m ∈ gs.map Prod.fst, n < m) →
              findEntry n gs = none := by
            intro gs lower
            cases found : findEntry n gs with
            | none => rfl
            | some a =>
                have : n ∈ gs.map Prod.fst := findEntry_isSome.mp (by rw [found]; rfl)
                exact absurd (lower n this) (List.lt_irrefl n)
          rw [absent (h ▸ he.1), absent (h ▸ first ▸ hf.1)]
        · have := same n
          rwa [findEntry, if_neg h, findEntry, if_neg (first ▸ h)] at this
      rw [show e = f from Prod.ext first value, rest]

/-- Two tables that bind every name to the same thing are the same. -/
theorem ext_get? {t u : Table α} (h : ∀ n, t.get? n = u.get? n) : t = u := by
  cases t
  cases u
  congr
  exact eq_of_findEntry (by assumption) (by assumption) h

/-- The last binding of a name counts. -/
theorem insert_insert (t : Table α) (name : Text) (a b : α) :
    (t.insert name a).insert name b = t.insert name b := by
  refine ext_get? fun n => ?_
  rw [get?_insert, get?_insert, get?_insert]
  split <;> rfl

/-- Binding a name to what it is bound to changes nothing. -/
theorem insert_of_get? {t : Table α} {name : Text} {a : α} (bound : t.get? name = some a) :
    t.insert name a = t := by
  refine ext_get? fun n => ?_
  rw [get?_insert]
  split
  · next same => rw [same, bound]
  · rfl

end Table

end LoopScript
