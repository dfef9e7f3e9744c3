import CodeSearch.Catalog
import Mathlib.Data.List.Nodup
import Mathlib.Data.List.Sort

/-!
# Catalogs as finite maps

A catalog is determined by what stands under each name. Insertion and erasure change
one name and leave the others, and the entries list every name with its value once.
-/
namespace CodeSearch.Catalog

variable {α : Type}

lemma lookup_cons {κ : Type} [DecidableEq κ] [BEq κ] [LawfulBEq κ] (e : κ × α)
    (es : List (κ × α)) (name : κ) :
    (e :: es).lookup name = if name = e.1 then some e.2 else es.lookup name := by
  obtain ⟨n, v⟩ := e
  rw [List.lookup_cons]
  by_cases hn : name = n
  · simp [hn]
  · have hbeq : (name == n) = false := beq_false_of_ne hn
    simp [hbeq, hn]

/-- Where every name occurs once, entries are found under their names. -/
lemma mem_iff_lookup {es : List (String × α)} (hes : (es.map (·.1)).Nodup)
    (name : String) (value : α) : (name, value) ∈ es ↔ es.lookup name = some value := by
  induction es with
  | nil => simp
  | cons e es ih =>
    rw [List.map_cons, List.nodup_cons] at hes
    rw [lookup_cons, List.mem_cons, ih hes.2]
    by_cases hn : name = e.1
    · have hout : es.lookup name ≠ some value := by
        intro h
        rw [← ih hes.2] at h
        exact hes.1 (hn ▸ List.mem_map_of_mem h)
      obtain ⟨n, v⟩ := e
      simp only at hn
      simp [hn, hn ▸ hout, eq_comm]
    · have hne : (name, value) ≠ e := by
        rintro rfl
        exact hn rfl
      simp [hn, hne]

lemma pairwise_names (c : Catalog α) : c.names.Pairwise (· < ·) :=
  List.pairwise_map.mpr c.sorted

lemma nodup_names (c : Catalog α) : c.names.Nodup :=
  c.pairwise_names.imp fun {a b} hab => by
    rintro rfl
    exact String.lt_irrefl a hab

lemma mem_entries_iff (c : Catalog α) (name : String) (value : α) :
    (name, value) ∈ c.entries ↔ c.get? name = some value :=
  mem_iff_lookup c.nodup_names name value

/-- What holds of every entry holds of all that is found by name. -/
lemma forall_entries_iff {c : Catalog α} {p : String → α → Prop} :
    (∀ e ∈ c.entries, p e.1 e.2) ↔ ∀ name value, c.get? name = some value → p name value := by
  simp only [← mem_entries_iff, Prod.forall]

lemma mem_names_iff (c : Catalog α) (name : String) :
    name ∈ c.names ↔ (c.get? name).isSome = true := by
  rw [Option.isSome_iff_exists]
  constructor
  · intro h
    obtain ⟨⟨n, v⟩, he, rfl⟩ := List.mem_map.mp h
    exact ⟨v, (c.mem_entries_iff n v).mp he⟩
  · rintro ⟨v, hv⟩
    exact List.mem_map.mpr ⟨(name, v), (c.mem_entries_iff name v).mpr hv, rfl⟩

lemma mem_values_iff (c : Catalog α) (value : α) :
    value ∈ c.values ↔ ∃ name, c.get? name = some value := by
  constructor
  · intro h
    obtain ⟨⟨n, v⟩, he, rfl⟩ := List.mem_map.mp h
    exact ⟨n, (c.mem_entries_iff n v).mp he⟩
  · rintro ⟨n, hn⟩
    exact List.mem_map.mpr ⟨(n, value), (c.mem_entries_iff n value).mpr hn, rfl⟩

@[simp] lemma length_names (c : Catalog α) : c.names.length = c.size := by
  simp [names, size]

@[simp] lemma length_values (c : Catalog α) : c.values.length = c.size := by
  simp [values, size]

theorem ext_get? {a b : Catalog α} (h : ∀ name, a.get? name = b.get? name) : a = b := by
  have hentries : a.entries = b.entries := by
    have : Std.Irrefl fun x y : String × α => x.1 < y.1 := ⟨fun x => String.lt_irrefl x.1⟩
    have : Std.Antisymm fun x y : String × α => x.1 < y.1 :=
      ⟨fun x y hxy hyx => absurd (String.lt_trans hxy hyx) (String.lt_irrefl x.1)⟩
    refine a.sorted.eq_of_mem_iff b.sorted fun e => ?_
    rw [mem_entries_iff, mem_entries_iff, h]
  cases a
  cases b
  simpa using hentries

@[simp] lemma get?_empty (name : String) : (empty : Catalog α).get? name = none := rfl

lemma lookup_insertEntry (es : List (String × α)) (name n : String) (value : α) :
    (insertEntry name value es).lookup n = if n = name then some value else es.lookup n := by
  induction es with
  | nil => simp [insertEntry, lookup_cons]
  | cons e es ih =>
    rw [insertEntry]
    split
    · rw [lookup_cons]
    · split
      · next heq =>
        rw [lookup_cons, lookup_cons, ← heq]
        by_cases hn : n = name <;> simp [hn]
      · next hne =>
        rw [lookup_cons, lookup_cons, ih]
        by_cases hn : n = name
        · simp [hn, hne]
        · simp [hn]

@[simp] theorem get?_insert (c : Catalog α) (name n : String) (value : α) :
    (c.insert name value).get? n = if n = name then some value else c.get? n :=
  lookup_insertEntry c.entries name n value

@[simp] theorem get?_erase (c : Catalog α) (name n : String) :
    (c.erase name).get? n = if n = name then none else c.get? n := by
  ext value
  rw [← mem_entries_iff, erase, filter, List.mem_filter, mem_entries_iff]
  by_cases hn : n = name <;> simp [hn]

/-- The last entry of a name counts, if the name occurs; else what was there before. -/
lemma get?_foldl_insert (es : List (String × α)) (c : Catalog α) (name : String) :
    (es.foldl (fun c e => c.insert e.1 e.2) c).get? name =
      (es.reverse.lookup name).or (c.get? name) := by
  induction es generalizing c with
  | nil => simp
  | cons e es ih =>
    rw [List.foldl_cons, ih, get?_insert, List.reverse_cons, List.lookup_append, lookup_cons,
      Option.or_assoc]
    by_cases hn : name = e.1 <;> simp [hn]

@[simp] theorem get?_ofList (es : List (String × α)) (name : String) :
    (ofList es).get? name = es.reverse.lookup name := by
  rw [ofList, get?_foldl_insert, get?_empty, Option.or_none]

theorem ofList_entries (c : Catalog α) : ofList c.entries = c := by
  refine ext_get? fun name => ?_
  have hnodup : (c.entries.reverse.map (·.1)).Nodup := by
    rw [List.map_reverse, List.nodup_reverse]
    exact c.nodup_names
  ext value
  rw [get?_ofList, ← mem_iff_lookup hnodup, List.mem_reverse, mem_entries_iff]

end CodeSearch.Catalog
