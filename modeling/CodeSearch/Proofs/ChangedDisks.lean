import CodeSearch.Disk.Changes
import CodeSearch.Proofs.Catalogs
import CodeSearch.Proofs.ConfinedPaths

/-!
# Changed disks

What stands where after a change, in terms of what stood there before. Making directories fills
the gaps on a way, removing takes away a place with all below it, and moving shows below the new
place what was below the old one. Whatever is done, everything still stands in a directory.
-/
namespace CodeSearch.Disk

variable {d d' : Disk} {l m x s t : Location} {e : DiskEntry} {bytes : ByteArray} {time : Int}
  {es : List (Location × DiskEntry)}

/-! ## Places -/

lemma at?_of_ne_nil (hm : m ≠ []) (d : Disk) : d.at? m = d.entries.lookup m := by
  simp [at?, hm]

lemma isDirectory_iff : d.isDirectory l = true ↔ d.at? l = some .directory := by
  refine ⟨at?_of_isDirectory, fun h => ?_⟩
  rw [isDirectory, h]

lemma isDirectory_congr (h : d'.at? m = d.at? l) : d'.isDirectory m = d.isDirectory l := by
  rw [isDirectory, isDirectory, h]

lemma mem_directories_iff : l ∈ d.directories ↔ d.isDirectory l = true := by
  rw [directories, List.mem_cons, List.mem_map]
  constructor
  · rintro (rfl | ⟨e, he, rfl⟩)
    · rfl
    · exact (List.mem_filter.mp he).2
  · intro h
    by_cases hnil : l = []
    · exact .inl hnil
    · have hat := isDirectory_iff.mp h
      rw [at?_of_ne_nil hnil] at hat
      obtain ⟨front, back, hentries, -⟩ := List.lookup_eq_some_iff.mp hat
      exact .inr ⟨(l, .directory), List.mem_filter.mpr ⟨by simp [hentries], h⟩, rfl⟩

lemma exists_mem_entries (hm : m ≠ []) (h : (d.at? m).isSome = true) :
    ∃ e ∈ d.entries, e.1 = m := by
  rw [at?_of_ne_nil hm] at h
  obtain ⟨e, he⟩ := Option.isSome_iff_exists.mp h
  obtain ⟨front, back, hentries, -⟩ := List.lookup_eq_some_iff.mp he
  exact ⟨(m, e), by simp [hentries], rfl⟩

/-- The way to what is there leads through directories. -/
lemma IsTree.isDirectory_of_prefix (hd : d.IsTree) (hlm : l <+: m) (hne : l ≠ m)
    (h : (d.at? m).isSome = true) : d.isDirectory l = true := by
  obtain ⟨rest, rfl⟩ := hlm
  exact hd.isDirectory (by rintro rfl; simp at hne) h

lemma IsTree.isDirectory_of_directory (hd : d.IsTree) (hlm : l <+: m)
    (h : d.isDirectory m = true) : d.isDirectory l = true := by
  by_cases hne : l = m
  · rwa [hne]
  · exact hd.isDirectory_of_prefix hlm hne (by rw [isDirectory_iff.mp h]; rfl)

/-! ## Entries -/

lemma lookup_filter (p : Location → Bool) (hm : p m = true) :
    (es.filter fun e => p e.1).lookup m = es.lookup m := by
  induction es with
  | nil => rfl
  | cons e es ih =>
    rw [List.filter_cons]
    split
    · rw [List.lookup_cons, List.lookup_cons, ih]
    · next hp =>
      have hne : m ≠ e.1 := by
        rintro rfl
        exact hp hm
      rw [ih, Catalog.lookup_cons, if_neg hne]

lemma lookup_filter_eq_none (p : Location → Bool) (hm : p m = false) :
    (es.filter fun e => p e.1).lookup m = none := by
  refine List.lookup_eq_none_iff.mpr fun e he => bne_iff_ne.mpr ?_
  rintro rfl
  rw [(List.mem_filter.mp he).2] at hm
  cases hm

/-- Entries that get new places are found there. -/
lemma lookup_map_place {place : Location → Location} {k : Location}
    (h : ∀ e ∈ es, place e.1 = m ↔ e.1 = k) :
    (es.map fun e => (place e.1, e.2)).lookup m = es.lookup k := by
  induction es with
  | nil => rfl
  | cons e es ih =>
    rw [List.forall_mem_cons] at h
    have hhere : m = place e.1 ↔ k = e.1 := by rw [eq_comm, h.1, eq_comm]
    rw [List.map_cons, Catalog.lookup_cons, Catalog.lookup_cons, ih h.2]
    simp only [hhere]

lemma lookup_replace : (es.map fun x => if x.1 = l then (l, e) else x).lookup m =
    if m = l then (es.lookup l).map fun _ => e else es.lookup m := by
  induction es with
  | nil => simp
  | cons first es ih =>
    rw [List.map_cons, Catalog.lookup_cons, ih, Catalog.lookup_cons, Catalog.lookup_cons]
    by_cases hfirst : first.1 = l
    · by_cases hm : m = l <;> simp [hfirst, hm]
    · by_cases hm : m = l
      · simp [hfirst, hm, Ne.symm hfirst]
      · simp [hfirst, hm]

lemma at?_set (hl : l ≠ []) : (d.set l e).at? m = if m = l then some e else d.at? m := by
  by_cases hm : m = []
  · subst hm
    rw [if_neg (Ne.symm hl)]
    rfl
  · rw [at?_of_ne_nil hm, at?_of_ne_nil hm, set]
    split
    · next hthere =>
      obtain ⟨old, hold⟩ := Option.isSome_iff_exists.mp hthere
      rw [lookup_replace, hold, Option.map_some]
    · next hfree =>
      rw [List.lookup_append]
      by_cases hml : m = l
      · subst hml
        simp [Option.not_isSome_iff_eq_none.mp hfree]
      · simp [Catalog.lookup_cons, hml]

/-! ## Making -/

structure MakesWay (d : Disk) (l : Location) (d' : Disk) : Prop where
  made : ∀ m, m <+: l → d'.at? m = some .directory
  kept : ∀ m, ¬ m <+: l → d'.at? m = d.at? m
  free : ∀ m, m <+: l → d.at? m = none ∨ d.at? m = some .directory

lemma way_concat (l : Location) (name : String) : way (l ++ [name]) = way l ++ [l ++ [name]] := by
  rw [way, way, List.length_append, List.length_singleton, List.range'_concat, List.map_append,
    List.map_singleton]
  congr 1
  · refine List.map_congr_left fun k hk => ?_
    rw [List.mem_range'_1] at hk
    exact List.take_append_of_le_length (by omega)
  · rw [List.take_of_length_le (by rw [List.length_append, List.length_singleton]; omega)]

lemma MakesWay.concat {between : Disk} {name : String} (h : d.MakesWay l between)
    (hthere : d'.at? (l ++ [name]) = some .directory)
    (hother : ∀ m, m ≠ l ++ [name] → d'.at? m = between.at? m)
    (hfree : between.at? (l ++ [name]) = none ∨ between.at? (l ++ [name]) = some .directory) :
    d.MakesWay (l ++ [name]) d' := by
  have hnew : ¬ l ++ [name] <+: l := fun hp => by
    have hlength := hp.length_le
    rw [List.length_append, List.length_singleton] at hlength
    omega
  refine ⟨fun m hm => ?_, fun m hm => ?_, fun m hm => ?_⟩
  · rcases List.prefix_concat_iff.mp hm with rfl | hm
    · exact hthere
    · rw [hother m (by rintro rfl; exact hnew hm), h.made m hm]
  · rw [List.prefix_concat_iff, not_or] at hm
    rw [hother m hm.1, h.kept m hm.2]
  · rcases List.prefix_concat_iff.mp hm with rfl | hm
    · rwa [h.kept _ hnew] at hfree
    · exact h.free m hm

/-- The directories are made one after another, so the induction adds the last one. -/
lemma makesWay_of_makeDirectories (h : d.makeDirectories l = .ok d') : d.MakesWay l d' := by
  induction l using List.reverseRecOn generalizing d' with
  | nil =>
    obtain rfl := Except.ok.inj h
    refine ⟨fun m hm => ?_, fun _ _ => rfl, fun m hm => ?_⟩
    · rw [List.prefix_nil.mp hm]
      rfl
    · rw [List.prefix_nil.mp hm]
      exact .inr rfl
  | append_singleton l name ih =>
    rw [makeDirectories, way_concat, List.foldlM_append] at h
    obtain ⟨between, hbefore, hlast⟩ := Except.bind_eq_ok.mp h
    have hway := ih hbefore
    rw [List.foldlM_cons] at hlast
    obtain ⟨after, hlast, hend⟩ := Except.bind_eq_ok.mp hlast
    obtain rfl := Except.ok.inj hend
    split at hlast
    · next hnone =>
      obtain rfl := Except.ok.inj hlast
      refine hway.concat ?_ (fun m hm => ?_) (.inl hnone)
      · rw [at?_set (by simp), if_pos rfl]
      · rw [at?_set (by simp), if_neg hm]
    · next hthere =>
      obtain rfl := Except.ok.inj hlast
      exact hway.concat hthere (fun _ _ => rfl) (.inr hthere)
    · cases hlast

lemma MakesWay.isTree (h : d.MakesWay l d') (hd : d.IsTree) : d'.IsTree := by
  intro m name hsome
  rw [isDirectory_iff]
  by_cases hm : m <+: l
  · exact h.made m hm
  · have hne : ¬ m ++ [name] <+: l := fun hp => hm ((List.prefix_append m [name]).trans hp)
    rw [h.kept _ hne] at hsome
    rw [h.kept m hm]
    exact isDirectory_iff.mp (hd m name hsome)

lemma MakesWay.at?_of_isSome (h : d.MakesWay l d') (hm : (d.at? m).isSome = true) :
    d'.at? m = d.at? m := by
  by_cases hml : m <+: l
  · rw [h.made m hml]
    rcases h.free m hml with hfree | hthere
    · rw [hfree] at hm
      cases hm
    · exact hthere.symm
  · exact h.kept m hml

lemma MakesWay.missing_of_new (h : d.MakesWay l d') (hm : d'.isDirectory m = true)
    (hold : d.isDirectory m = false) : m <+: l ∧ d.at? m = none := by
  have hway : m <+: l := by
    by_contra hm'
    rw [isDirectory_congr (h.kept m hm'), hold] at hm
    cases hm
  refine ⟨hway, (h.free m hway).resolve_right fun hthere => ?_⟩
  rw [isDirectory_iff.mpr hthere] at hold
  cases hold

/-- A file is written once the directories around it are there. -/
lemma exists_of_write (h : d.write l bytes time = .ok d') : l ≠ [] ∧ ∃ between,
    d.MakesWay l.dropLast between ∧ between.isDirectory l = false ∧
      ∀ m, d'.at? m = if m = l then some (.file bytes time) else between.at? m := by
  obtain ⟨between, hbetween, h⟩ := Except.bind_eq_ok.mp h
  dsimp only at h
  split at h
  · cases h
  · next hfree =>
    have hne : l ≠ [] := by
      rintro rfl
      exact hfree rfl
    obtain rfl := Except.ok.inj h
    exact ⟨hne, between, makesWay_of_makeDirectories hbetween, by simpa using hfree,
      fun m => at?_set hne⟩

/-- A file with a new time is the same file. -/
lemma at?_of_date (h : d.date l time = .ok d') (m : Location) :
    d'.isDirectory m = d.isDirectory m ∧ d'.bytes? m = d.bytes? m ∧
      (d'.at? m).isSome = (d.at? m).isSome := by
  unfold date at h
  split at h
  · cases h
  · obtain rfl := Except.ok.inj h
    exact ⟨rfl, rfl, rfl⟩
  · next old stamp hfile =>
    obtain rfl := Except.ok.inj h
    have hne : l ≠ [] := by
      rintro rfl
      cases hfile
    have hat := at?_set (d := d) (e := .file old time) (m := m) hne
    by_cases hm : m = l
    · subst hm
      rw [if_pos rfl] at hat
      simp [isDirectory, bytes?, hat, hfile]
    · rw [if_neg hm] at hat
      simp [isDirectory, bytes?, hat]

/-! ## Removing and moving -/

lemma at?_of_remove (h : d.remove x = .ok d') : (d.at? x).isSome = true ∧
    (∀ m, m ≠ [] → x <+: m → d'.at? m = none) ∧ ∀ m, ¬ x <+: m → d'.at? m = d.at? m := by
  unfold remove at h
  split at h
  · cases h
  · next e hthere =>
    obtain rfl := Except.ok.inj h
    refine ⟨by rw [hthere]; rfl, fun m hne hm => ?_, fun m hm => ?_⟩
    · rw [at?_of_ne_nil hne]
      exact lookup_filter_eq_none (fun l => !x.isPrefixOf l) (by simpa using hm)
    · by_cases hne : m = []
      · rw [hne]
        rfl
      · rw [at?_of_ne_nil hne, at?_of_ne_nil hne]
        exact lookup_filter (fun l => !x.isPrefixOf l)
          (by simpa [← List.isPrefixOf_iff_prefix] using hm)

structure Moves (d : Disk) (s t : Location) (d' : Disk) : Prop where
  there : (d.at? s).isSome = true
  around : d.isDirectory t.dropLast = true
  notInto : ¬ s <+: t
  notOnto : ¬ t <+: s
  /-- Nothing is in the place that it gets. -/
  room : ∀ m, t <+: m → m ≠ t → d.at? m = none
  kind : (d.at? t).isSome = true → d.isDirectory t = d.isDirectory s
  target : ∀ rest, d'.at? (t ++ rest) = d.at? (s ++ rest)
  source : ∀ m, s <+: m → d'.at? m = none
  other : ∀ m, ¬ s <+: m → ¬ t <+: m → d'.at? m = d.at? m

lemma at?_eq_none_of_isBare (h : d.isBare t = true) (hm : t <+: m) (hne : m ≠ t) :
    d.at? m = none := by
  have hnil : m ≠ [] := by
    rintro rfl
    exact hne (List.prefix_nil.mp hm).symm
  by_contra hsome
  obtain ⟨e, he, rfl⟩ := exists_mem_entries hnil (Option.isSome_iff_ne_none.mpr hsome)
  rw [isBare, Bool.not_eq_true', List.any_eq_false] at h
  exact h e he (by simpa using ⟨hm, hne⟩)

/-- The place of a thing after a move. -/
def movedTo (s t l : Location) : Location :=
  if s.isPrefixOf l then t ++ l.drop s.length else l

lemma movedTo_append (rest : Location) : movedTo s t (s ++ rest) = t ++ rest := by
  simp [movedTo, List.isPrefixOf_iff_prefix]

lemma movedTo_of_apart (h : ¬ s <+: l) : movedTo s t l = l := by
  simp [movedTo, List.isPrefixOf_iff_prefix, h]

/-- The entries after a move, for places that are apart. -/
lemma lookup_moved (es : List (Location × DiskEntry)) (hinto : ¬ s <+: t) (honto : ¬ t <+: s) :
    let moved := (es.filter fun e => !t.isPrefixOf e.1).map fun e => (movedTo s t e.1, e.2)
    (∀ rest, moved.lookup (t ++ rest) = es.lookup (s ++ rest)) ∧
    (∀ m, s <+: m → moved.lookup m = none) ∧
    ∀ m, ¬ s <+: m → ¬ t <+: m → moved.lookup m = es.lookup m := by
  have hapart {l : Location} (hs : s <+: l) : ¬ t <+: l := fun ht =>
    (List.prefix_or_prefix_of_prefix hs ht).elim hinto honto
  have hleft {e : Location × DiskEntry} (he : e ∈ es.filter fun e => !t.isPrefixOf e.1) :
      ¬ t <+: e.1 := by
    simpa [← List.isPrefixOf_iff_prefix] using (List.mem_filter.mp he).2
  refine ⟨fun rest => ?_, fun m hm => ?_, fun m hs ht => ?_⟩
  · rw [lookup_map_place (k := s ++ rest), lookup_filter (fun l => !t.isPrefixOf l)]
    · simpa [← List.isPrefixOf_iff_prefix] using hapart (List.prefix_append s rest)
    · intro e he
      by_cases hs : s <+: e.1
      · obtain ⟨below, hbelow⟩ := hs
        rw [← hbelow, movedTo_append, List.append_cancel_left_eq, List.append_cancel_left_eq]
      · rw [movedTo_of_apart hs]
        refine iff_of_false ?_ ?_
        · intro heq
          exact hleft he (heq ▸ List.prefix_append t rest)
        · intro heq
          exact hs (heq ▸ List.prefix_append s rest)
  · refine List.lookup_eq_none_iff.mpr fun e he => bne_iff_ne.mpr ?_
    obtain ⟨old, hold, rfl⟩ := List.mem_map.mp he
    rintro rfl
    by_cases hs : s <+: old.1
    · obtain ⟨below, hbelow⟩ := hs
      rw [← hbelow, movedTo_append] at hm
      exact hapart hm (List.prefix_append t below)
    · rw [movedTo_of_apart hs] at hm
      exact hs hm
  · rw [lookup_map_place (k := m), lookup_filter (fun l => !t.isPrefixOf l)]
    · simpa [← List.isPrefixOf_iff_prefix] using ht
    · intro e he
      by_cases hse : s <+: e.1
      · obtain ⟨below, hbelow⟩ := hse
        rw [← hbelow, movedTo_append]
        refine iff_of_false ?_ ?_
        · rintro rfl
          exact ht (List.prefix_append t below)
        · rintro rfl
          exact hs (List.prefix_append s below)
      · rw [movedTo_of_apart hse]

lemma IsTree.at?_eq_none (hd : d.IsTree) (ht : d.isDirectory t = false) (hm : t <+: m)
    (hne : m ≠ t) : d.at? m = none := by
  by_contra hsome
  have hdirectory := hd.isDirectory_of_prefix hm hne.symm (Option.isSome_iff_ne_none.mpr hsome)
  rw [ht] at hdirectory
  cases hdirectory

def moved (d : Disk) (s t : Location) : Disk where
  entries := (d.entries.filter fun e => !t.isPrefixOf e.1).map fun e => (movedTo s t e.1, e.2)

lemma moved_eq (d : Disk) (s t : Location) :
    { entries := (d.entries.filter fun x => !t.isPrefixOf x.1).map fun x =>
        if s.isPrefixOf x.1 then (t ++ x.1.drop s.length, x.2) else x } = d.moved s t := by
  have hplace (e : Location × DiskEntry) :
      (if s.isPrefixOf e.1 then (t ++ e.1.drop s.length, e.2) else e) =
        (movedTo s t e.1, e.2) := by
    rw [movedTo]
    split <;> rfl
  simp only [moved, hplace]

lemma moves_moved (hthere : (d.at? s).isSome = true) (haround : d.isDirectory t.dropLast = true)
    (hne : s ≠ t) (hinto : ¬ s <+: t) (hroom : ∀ m, t <+: m → m ≠ t → d.at? m = none)
    (hkind : (d.at? t).isSome = true → d.isDirectory t = d.isDirectory s) :
    d.Moves s t (d.moved s t) := by
  have honto : ¬ t <+: s := fun ht => by
    rw [hroom s ht hne] at hthere
    cases hthere
  have hs {m : Location} (hm : s <+: m) : m ≠ [] := by
    rintro rfl
    exact hinto ((List.prefix_nil.mp hm).symm ▸ List.nil_prefix)
  have ht {m : Location} (hm : t <+: m) : m ≠ [] := by
    rintro rfl
    exact honto ((List.prefix_nil.mp hm).symm ▸ List.nil_prefix)
  obtain ⟨htarget, hsource, hother⟩ := lookup_moved d.entries hinto honto
  refine ⟨hthere, haround, hinto, honto, hroom, hkind, fun rest => ?_, fun m hm => ?_,
    fun m hms hmt => ?_⟩
  · rw [at?_of_ne_nil (ht (List.prefix_append t rest)),
      at?_of_ne_nil (hs (List.prefix_append s rest))]
    exact htarget rest
  · rw [at?_of_ne_nil (hs hm)]
    exact hsource m hm
  · by_cases hnil : m = []
    · rw [hnil]
      rfl
    · rw [at?_of_ne_nil hnil, at?_of_ne_nil hnil]
      exact hother m hms hmt

/-- A move is a move to a free place, or onto something of its kind that can make room. -/
lemma IsTree.moves (hd : d.IsTree) (h : d.move s t = .ok d') :
    s = t ∧ d' = d ∨ d.Moves s t d' := by
  unfold move at h
  split at h
  · cases h
  · cases h
  · next e hthere haround =>
    split at h
    · next hsame => exact .inl ⟨hsame, (Except.ok.inj h).symm⟩
    · next hne =>
      split at h
      · cases h
      · next hinto =>
        have hinto' : ¬ s <+: t := by simpa [← List.isPrefixOf_iff_prefix] using hinto
        have hsome : (d.at? s).isSome = true := by rw [hthere]; rfl
        refine .inr ?_
        rw [moved_eq] at h
        dsimp only at h
        split at h
        · next hfree =>
          obtain rfl := Except.ok.inj h
          have hplain : d.isDirectory t = false := by simp [Disk.isDirectory, hfree]
          exact moves_moved hsome haround hne hinto' (fun m => hd.at?_eq_none hplain)
            (by simp [hfree])
        · next hfile =>
          obtain rfl := Except.ok.inj h
          have hplain : d.isDirectory t = false := by simp [Disk.isDirectory, hfile]
          refine moves_moved hsome haround hne hinto' (fun m => hd.at?_eq_none hplain) fun _ => ?_
          simp [Disk.isDirectory, hfile, hthere]
        · cases h
        · cases h
        · next hdirectory =>
          split at h
          · next hbare =>
            obtain rfl := Except.ok.inj h
            refine moves_moved hsome haround hne hinto'
              (fun m => at?_eq_none_of_isBare hbare) fun _ => ?_
            rw [isDirectory_iff.mpr hdirectory, isDirectory_iff.mpr hthere]
          · cases h

/-! ## Trees -/

lemma Moves.isDirectory_target (h : d.Moves s t d') (rest : Location) :
    d'.isDirectory (t ++ rest) = d.isDirectory (s ++ rest) :=
  isDirectory_congr (h.target rest)

lemma Moves.isTree (h : d.Moves s t d') (hd : d.IsTree) : d'.IsTree := by
  intro l name hsome
  by_cases ht : t <+: l
  · obtain ⟨rest, rfl⟩ := ht
    rw [List.append_assoc, h.target, ← List.append_assoc] at hsome
    rw [h.isDirectory_target]
    exact hd _ _ hsome
  · by_cases hlast : t = l ++ [name]
    · have haround := h.around
      rw [hlast, List.dropLast_concat] at haround
      have hs : ¬ s <+: l := fun hs =>
        h.notInto (hlast ▸ hs.trans (List.prefix_append l [name]))
      rwa [isDirectory_congr (h.other l hs ht)]
    · have ht' : ¬ t <+: l ++ [name] := fun hp =>
        (List.prefix_concat_iff.mp hp).elim hlast ht
      have hs' : ¬ s <+: l ++ [name] := fun hs => by
        rw [h.source _ hs] at hsome
        cases hsome
      have hs : ¬ s <+: l := fun hs => hs' (hs.trans (List.prefix_append l [name]))
      rw [h.other _ hs' ht'] at hsome
      rw [isDirectory_congr (h.other l hs ht)]
      exact hd l name hsome

/-- Whatever is done to a tree leaves a tree. -/
theorem IsTree.change {c : DiskChange} (hd : d.IsTree) (h : d.change c = .ok d') : d'.IsTree := by
  cases c with
  | makeDirectory l => exact (makesWay_of_makeDirectories h).isTree hd
  | write l bytes time =>
    obtain ⟨hne, between, hway, hfree, hat⟩ := exists_of_write h
    have hbetween := hway.isTree hd
    intro m name hsome
    by_cases hm : m ++ [name] = l
    · have hparent : between.at? m = some .directory :=
        hway.made m (by rw [← hm, List.dropLast_concat])
      rw [isDirectory_iff, hat, if_neg (by rintro rfl; simp at hm), hparent]
    · rw [hat, if_neg hm] at hsome
      have hparent := hbetween m name hsome
      have hml : m ≠ l := by
        rintro rfl
        rw [hfree] at hparent
        cases hparent
      have hsame : d'.at? m = between.at? m := by rw [hat, if_neg hml]
      rw [isDirectory_congr hsame]
      exact hparent
  | date l time =>
    intro m name hsome
    rw [(at?_of_date h _).2.2] at hsome
    rw [(at?_of_date h m).1]
    exact hd m name hsome
  | remove l =>
    obtain ⟨-, hgone, hkept⟩ := at?_of_remove h
    intro m name hsome
    have hl : ¬ l <+: m ++ [name] := fun hl => by
      rw [hgone _ (by simp) hl] at hsome
      cases hsome
    rw [hkept _ hl] at hsome
    have hparent : ¬ l <+: m := fun hm => hl (hm.trans (List.prefix_append m [name]))
    rw [isDirectory_congr (hkept m hparent)]
    exact hd m name hsome
  | move s t =>
    rcases hd.moves h with ⟨-, rfl⟩ | hmoves
    · exact hd
    · exact hmoves.isTree hd

/-! ## New directories -/

/-- What can bring a directory to a place where there was none. -/
inductive Brings (d : Disk) (l : Location) : DiskChange → Prop where
  | made {x : Location} {after : Disk} (hmade : d.MakesWay x after) (hway : l <+: x)
      (hmissing : d.at? l = none) : Brings d l (.makeDirectory x)
  | around {x : Location} {bytes : ByteArray} {time : Int} {after : Disk}
      (hmade : d.MakesWay x.dropLast after) (hway : l <+: x.dropLast) (hmissing : d.at? l = none)
      (hfree : d.at? x = none) : Brings d l (.write x bytes time)
  | moved {s t : Location} {after : Disk} (hmoves : d.Moves s t after) (ht : t <+: l) :
      Brings d l (.move s t)

/-- Where there is a new directory, it has been made or moved there. -/
lemma IsTree.brings {c : DiskChange} (hd : d.IsTree) (h : d.change c = .ok d')
    (hl : d'.isDirectory l = true) (hold : d.isDirectory l = false) : d.Brings l c := by
  have hkept (hsame : d'.at? l = d.at? l) : False := by
    rw [isDirectory_congr hsame, hold] at hl
    cases hl
  cases c with
  | makeDirectory x =>
    have hmade := makesWay_of_makeDirectories h
    obtain ⟨hway, hmissing⟩ := hmade.missing_of_new hl hold
    exact .made hmade hway hmissing
  | write x bytes time =>
    obtain ⟨hne, between, hmade, -, hat⟩ := exists_of_write h
    have hlx : l ≠ x := by
      rintro rfl
      rw [isDirectory_iff, hat, if_pos rfl] at hl
      cases hl
    have hbetween : d'.at? l = between.at? l := by rw [hat, if_neg hlx]
    obtain ⟨hway, hmissing⟩ :=
      hmade.missing_of_new ((isDirectory_congr hbetween).symm.trans hl) hold
    refine .around hmade hway hmissing ?_
    by_contra hthere
    have hdirectory := hd.isDirectory_of_prefix (hway.trans (List.dropLast_prefix x)) hlx
      (Option.isSome_iff_ne_none.mpr hthere)
    rw [hold] at hdirectory
    cases hdirectory
  | date x time =>
    rw [(at?_of_date h l).1, hold] at hl
    cases hl
  | remove x =>
    obtain ⟨-, hgone, hother⟩ := at?_of_remove h
    by_cases hx : x <+: l
    · have hne : l ≠ [] := by
        rintro rfl
        cases hold
      rw [isDirectory_iff, hgone l hne hx] at hl
      cases hl
    · exact (hkept (hother l hx)).elim
  | move s t =>
    rcases hd.moves h with ⟨-, rfl⟩ | hmoves
    · exact (hkept rfl).elim
    · refine .moved hmoves ?_
      have hs : ¬ s <+: l := fun hs => by
        rw [isDirectory_iff, hmoves.source l hs] at hl
        cases hl
      by_contra ht
      exact hkept (hmoves.other l hs ht)

end CodeSearch.Disk
