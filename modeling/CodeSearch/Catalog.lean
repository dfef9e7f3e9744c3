/-!
# Catalogs

A catalog keeps one value for each of finitely many names, in the order of the names.
The order of two texts is that of their characters, which is also that of their bytes.
Everything is said through `get?` and the entries.
-/
namespace CodeSearch

/-- Values under names, sorted by name, each name once. -/
structure Catalog (α : Type) where
  entries : List (String × α)
  sorted : entries.Pairwise fun a b => a.1 < b.1

namespace Catalog

variable {α β : Type}

/-- Put an entry in its place; an entry of the same name makes room for it. -/
def insertEntry (name : String) (value : α) : List (String × α) → List (String × α)
  | [] => [(name, value)]
  | e :: es =>
      if name < e.1 then (name, value) :: e :: es
      else if name = e.1 then (name, value) :: es
      else e :: insertEntry name value es

theorem mem_insertEntry {name : String} {value : α} {e : String × α} {es : List (String × α)}
    (h : e ∈ insertEntry name value es) : e = (name, value) ∨ e ∈ es := by
  induction es with
  | nil => simpa [insertEntry] using h
  | cons a es ih =>
    rw [insertEntry] at h
    split at h
    · simpa using h
    · split at h
      · rcases List.mem_cons.1 h with h | h
        · exact .inl h
        · exact .inr (List.mem_cons_of_mem _ h)
      · rcases List.mem_cons.1 h with h | h
        · exact .inr (h ▸ List.mem_cons_self)
        · exact (ih h).imp_right (List.mem_cons_of_mem _)

theorem lt_of_not_lt_of_ne {a b : String} (h : ¬ a < b) (hne : a ≠ b) : b < a := by
  rcases String.le_total a b with h' | h'
  · exact absurd (String.le_antisymm h' (String.not_lt.1 h)) hne
  · exact String.not_le.1 fun h'' => hne (String.le_antisymm h'' h')

theorem insertEntry_sorted (name : String) (value : α) {es : List (String × α)}
    (h : es.Pairwise fun a b => a.1 < b.1) :
    (insertEntry name value es).Pairwise fun a b => a.1 < b.1 := by
  induction es with
  | nil => simp [insertEntry]
  | cons a es ih =>
    have hd {e : String × α} (he : e ∈ es) : a.1 < e.1 := List.rel_of_pairwise_cons h he
    rw [insertEntry]
    split
    next hlt =>
      exact h.cons fun e he => by
        rcases List.mem_cons.1 he with rfl | he
        · exact hlt
        · exact String.lt_trans hlt (hd he)
    next hnlt =>
      split
      next heq => exact h.of_cons.cons fun e he => heq ▸ hd he
      next hne =>
        exact (ih h.of_cons).cons fun e he => by
          rcases mem_insertEntry he with rfl | he
          · exact lt_of_not_lt_of_ne hnlt hne
          · exact hd he

def empty : Catalog α := ⟨[], .nil⟩

instance : Inhabited (Catalog α) := ⟨empty⟩

def get? (c : Catalog α) (name : String) : Option α :=
  c.entries.lookup name

/-- Keep a value under a name, in place of the one that was there. -/
def insert (c : Catalog α) (name : String) (value : α) : Catalog α :=
  ⟨insertEntry name value c.entries, insertEntry_sorted name value c.sorted⟩

/-- Keep the entries that pass. -/
def filter (keep : String → α → Bool) (c : Catalog α) : Catalog α :=
  ⟨c.entries.filter fun e => keep e.1 e.2, c.sorted.sublist List.filter_sublist⟩

def erase (c : Catalog α) (name : String) : Catalog α :=
  c.filter fun n _ => n ≠ name

def names (c : Catalog α) : List String :=
  c.entries.map (·.1)

/-- The values in the order of their names. -/
def values (c : Catalog α) : List α :=
  c.entries.map (·.2)

def size (c : Catalog α) : Nat :=
  c.entries.length

/-- The catalog of some entries, of which the last of a name counts. -/
def ofList (es : List (String × α)) : Catalog α :=
  es.foldl (fun c e => c.insert e.1 e.2) empty

end Catalog

end CodeSearch
