import CodeSearch.Proofs.ChangedDisks
import CodeSearch.Proofs.WatchedFiles

/-!
# What is reported of a change

What is delivered of a change is up to the system. It is assumed to be what `Notifies` says, in
any order and however often; the events of `DiskEvent.ofChange` are such. Then a new directory is
reported by the outermost thing that came with it, if the place around that is watched. Whatever
else is reported is no directory any more, so a report of a directory always announces something
new. A change that makes the rules of a watched directory void is reported by the place of these
rules and by no directory at all.
-/
namespace CodeSearch

namespace DiskChange

/-- A change leaves a directory where it is. -/
def Spares (root : Location) : DiskChange → Prop
  | .remove x => ¬ x <+: root
  | .move s t => ¬ s <+: root ∧ ¬ t <+: root
  | _ => True

/-- A change does not move rules of a workspace along with a directory. -/
def MovesNoRules (root : Location) (d : Disk) (c : DiskChange) : Prop :=
  ∀ s t, c = .move s t → root <+: s → ∀ l, s <+: l → d.isFile (l ++ [gitignoreName]) = false

/-- A change moves something onto a place. -/
def MovesOnto (l : Location) : DiskChange → Prop
  | .move s t => s ≠ t ∧ t = l
  | _ => False

/-- A change puts something else into a place. -/
def Touches (l : Location) : DiskChange → Prop
  | .write x _ _ => x = l
  | .remove x => x <+: l
  | .move s t => s ≠ t ∧ (s <+: l ∨ t <+: l)
  | _ => False

end DiskChange

lemma DiskChange.Spares.isDirectory {d d' : Disk} {root : Location} {c : DiskChange}
    (h : c.Spares root) (hd : d.IsTree) (hc : d.change c = .ok d')
    (hroot : d.isDirectory root = true) : d'.isDirectory root = true := by
  have hthere : (d.at? root).isSome = true := by rw [Disk.isDirectory_iff.mp hroot]; rfl
  cases c with
  | makeDirectory x =>
    rwa [Disk.isDirectory_congr ((Disk.makesWay_of_makeDirectories hc).at?_of_isSome hthere)]
  | write x bytes time =>
    obtain ⟨-, between, hmade, hfree, hat⟩ := Disk.exists_of_write hc
    have hbetween := hmade.at?_of_isSome hthere
    have hne : root ≠ x := by
      rintro rfl
      rw [Disk.isDirectory_congr hbetween, hroot] at hfree
      cases hfree
    have hsame : d'.at? root = d.at? root := by rw [hat, if_neg hne, hbetween]
    rwa [Disk.isDirectory_congr hsame]
  | date x time => rwa [(Disk.at?_of_date hc root).1]
  | remove x => rwa [Disk.isDirectory_congr ((Disk.at?_of_remove hc).2.2 root h)]
  | move s t =>
    rcases hd.moves hc with ⟨-, rfl⟩ | hmoves
    · exact hroot
    · rwa [Disk.isDirectory_congr (hmoves.other root h.1 h.2)]

namespace DiskEvent

structure IsFirstMissing (d : Disk) (x y : Location) : Prop where
  onWay : y <+: x
  ne_nil : y ≠ []
  missing : d.at? y = none
  before : ∀ m, m <+: y → m ≠ y → (d.at? m).isSome = true

/-- What there is to report of a change: an event that tells of a thing directly in a watched
directory, or of a watched directory itself that goes away. -/
inductive Report (watched : List Location) (d : Disk) : DiskChange → DiskEvent → Location → Prop
    where
  | written {l : Location} {bytes : ByteArray} {time : ℤ}
      (hthere : (d.at? l).isSome = true) (hseen : sees watched l = true) :
      Report watched d (.write l bytes time) (.modified l) l
  | dated {l : Location} {time : ℤ} (hfile : d.isFile l = true)
      (hseen : sees watched l = true) :
      Report watched d (.date l time) (.modified l) l
  | writtenAnew {x l : Location} {bytes : ByteArray} {time : ℤ} (hfree : d.at? x = none)
      (hfirst : IsFirstMissing d x l) (hseen : sees watched l = true) :
      Report watched d (.write x bytes time) (.created l) l
  | filled {l : Location} {bytes : ByteArray} {time : ℤ} (hfirst : IsFirstMissing d l l)
      (hseen : sees watched l = true) :
      Report watched d (.write l bytes time) (.modified l) l
  | made {x l : Location} (hfirst : IsFirstMissing d x l) (hseen : sees watched l = true) :
      Report watched d (.makeDirectory x) (.created l) l
  | removed {x l : Location} (hbelow : x <+: l) (hthere : l ∈ d.entries.map (·.1))
      (hseen : l ∈ watched ∨ sees watched l = true) :
      Report watched d (.remove x) (.removed l) l
  | left {s t : Location} (hne : s ≠ t) (ls : List Location)
      (hseen : s ∈ watched ∨ sees watched s = true) :
      Report watched d (.move s t) (.renamed ls) s
  | arrived {s t : Location} (hne : s ≠ t) (ls : List Location)
      (hseen : sees watched t = true) :
      Report watched d (.move s t) (.renamed ls) t

/-- What is assumed of the events that are delivered of a change: they tell of the locations that
there is something to report of, and of no others. -/
structure Notifies (watched : List Location) (d : Disk) (c : DiskChange) (es : List DiskEvent) :
    Prop where
  sound : ∀ e ∈ es, ∀ l ∈ e.locations, Report watched d c e l
  complete : ∀ {e l}, Report watched d c e l → ∃ e' ∈ es, l ∈ e'.locations

variable {d d' : Disk} {root l m x y s t : Location} {c : DiskChange} {watched : List Location}
  {e : DiskEvent} {bytes : ByteArray} {time : ℤ}

lemma sees_iff : sees watched l = true ↔ l ≠ [] ∧ l.dropLast ∈ watched := by
  simp [sees]

lemma mem_ifSeen {x : DiskEvent} : x ∈ ifSeen watched l e ↔ sees watched l = true ∧ x = e := by
  unfold ifSeen
  split <;> simp_all

/-! ## What has to be made -/

lemma isFirstMissing_of_eq_some (h : firstMissing? d x = some y) : IsFirstMissing d x y := by
  rw [firstMissing?, Disk.way, List.find?_map, Option.map_eq_some_iff] at h
  obtain ⟨k, hk, rfl⟩ := h
  rw [List.find?_range'_eq_some] at hk
  obtain ⟨hmissing, hmem, hbefore⟩ := hk
  rw [List.mem_range'_1] at hmem
  have hlength : (x.take k).length = k := by rw [List.length_take]; omega
  refine ⟨List.take_prefix k x, ?_, by simpa using hmissing, fun m hm hne => ?_⟩
  · intro hnil
    rw [hnil, List.length_nil] at hlength
    omega
  · have hshort : m.length < k := by
      have hle := hm.length_le
      have hlt := mt hm.eq_of_length hne
      omega
    have htake := List.prefix_iff_eq_take.mp (hm.trans (List.take_prefix k x))
    by_cases hnil : m.length = 0
    · rw [List.length_eq_zero_iff.mp hnil]
      rfl
    · have hthere := hbefore m.length (by omega) hshort
      rw [Function.comp_apply, ← htake] at hthere
      simpa [Option.isSome_iff_ne_none] using hthere

/-- The outermost thing that is missing is on the way to all that is. -/
lemma exists_firstMissing (hm : m <+: x) (hmissing : d.at? m = none) :
    ∃ y, firstMissing? d x = some y ∧ y <+: m := by
  have hne : m ≠ [] := by
    rintro rfl
    cases hmissing
  have hway : m ∈ Disk.way x := by
    have hlength := hm.length_le
    have hpos := List.length_pos_of_ne_nil hne
    refine List.mem_map.mpr ⟨m.length, List.mem_range'_1.mpr (by omega), ?_⟩
    exact (List.prefix_iff_eq_take.mp hm).symm
  cases hfind : firstMissing? d x with
  | none =>
    rw [firstMissing?, List.find?_eq_none] at hfind
    exact absurd (by rw [hmissing]; rfl) (hfind m hway)
  | some y =>
    have hy := isFirstMissing_of_eq_some hfind
    refine ⟨y, rfl, ?_⟩
    rcases List.prefix_or_prefix_of_prefix hy.onWay hm with h | h
    · exact h
    · by_contra hym
      have hthere := hy.before m h (by rintro rfl; exact hym h)
      rw [hmissing] at hthere
      cases hthere

lemma IsFirstMissing.firstMissing?_eq (h : IsFirstMissing d x y) : firstMissing? d x = some y := by
  obtain ⟨z, hfirst, hzy⟩ := exists_firstMissing h.onWay h.missing
  have hsame : z = y := by
    by_contra hne
    have hthere := h.before z hzy hne
    rw [(isFirstMissing_of_eq_some hfirst).missing] at hthere
    cases hthere
  rw [hfirst, hsame]

/-! ## Reports -/

lemma mem_ofMaking (h : e ∈ ofMaking watched d x) :
    ∃ y, e = .created y ∧ IsFirstMissing d x y ∧ sees watched y = true := by
  unfold ofMaking at h
  split at h
  · next y hfirst =>
    obtain ⟨hseen, rfl⟩ := mem_ifSeen.mp h
    exact ⟨y, rfl, isFirstMissing_of_eq_some hfirst, hseen⟩
  · cases h

lemma mem_ofRemoval : e ∈ ofRemoval watched l ↔
    e = .removed l ∧ (l ∈ watched ∨ sees watched l = true) := by
  rw [ofRemoval, List.mem_append, mem_ifSeen]
  by_cases hl : l ∈ watched
  · simp only [hl, true_or, and_true, List.contains_iff_mem, ↓reduceIte, List.mem_singleton]
    exact or_iff_left_of_imp And.right
  · simp [hl, and_comm]

lemma mem_fromBelow : l ∈ fromBelow d x ↔ x <+: l ∧ l ∈ d.entries.map (·.1) := by
  rw [fromBelow, List.mem_mergeSort, List.mem_filter, List.isPrefixOf_iff_prefix, and_comm]

/-- A move is reported of its two places alone. -/
lemma mem_ofMove (h : e ∈ ofMove watched s t) : ∃ ls, e = .renamed ls ∧ ∀ l ∈ ls,
    l = s ∧ (s ∈ watched ∨ sees watched s = true) ∨ l = t ∧ sees watched t = true := by
  simp only [ofMove, List.mem_append, mem_ifSeen] at h
  rcases h with ((⟨hseen, rfl⟩ | ⟨hseen, rfl⟩) | hboth) | hown
  · exact ⟨[s], rfl, by simp [hseen]⟩
  · exact ⟨[t], rfl, by simp [hseen]⟩
  · split at hboth
    · next hseen =>
      rw [Bool.and_eq_true] at hseen
      exact ⟨[s, t], List.mem_singleton.mp hboth, by simp [hseen]⟩
    · cases hboth
  · split at hown
    · next hwatched =>
      have hmem : s ∈ watched := by simpa using hwatched
      exact ⟨[s], List.mem_singleton.mp hown, by simp [hmem]⟩
    · cases hown

lemma report_of_mem_ofChange (he : e ∈ ofChange watched d c) (hl : l ∈ e.locations) :
    Report watched d c e l := by
  cases c with
  | write x bytes time =>
    unfold ofChange at he
    dsimp only at he
    split at he
    · next hthere =>
      obtain ⟨hseen, rfl⟩ := mem_ifSeen.mp he
      obtain rfl := List.mem_singleton.mp hl
      exact .written hthere hseen
    · next hfree =>
      obtain ⟨y, rfl, hfirst, hseen⟩ := mem_ofMaking he
      obtain rfl := List.mem_singleton.mp hl
      exact .writtenAnew (by simpa using hfree) hfirst hseen
  | date x time =>
    unfold ofChange at he
    dsimp only at he
    split at he
    · next hfile =>
      obtain ⟨hseen, rfl⟩ := mem_ifSeen.mp he
      obtain rfl := List.mem_singleton.mp hl
      exact .dated hfile hseen
    · cases he
  | makeDirectory x =>
    obtain ⟨y, rfl, hfirst, hseen⟩ := mem_ofMaking he
    obtain rfl := List.mem_singleton.mp hl
    exact .made hfirst hseen
  | remove x =>
    obtain ⟨y, hy, he⟩ := List.mem_flatMap.mp he
    obtain ⟨hbelow, hthere⟩ := mem_fromBelow.mp hy
    obtain ⟨rfl, hseen⟩ := mem_ofRemoval.mp he
    obtain rfl := List.mem_singleton.mp hl
    exact .removed hbelow hthere hseen
  | move s t =>
    unfold ofChange at he
    dsimp only at he
    split at he
    · cases he
    · next hne =>
      obtain ⟨ls, rfl, hls⟩ := mem_ofMove he
      rcases hls l hl with ⟨rfl, hseen⟩ | ⟨rfl, hseen⟩
      · exact .left hne ls hseen
      · exact .arrived hne ls hseen

lemma exists_mem_ofChange (h : Report watched d c e l) :
    ∃ e' ∈ ofChange watched d c, l ∈ e'.locations := by
  have hmade {x : Location} (hfirst : IsFirstMissing d x l) (hseen : sees watched l = true) :
      .created l ∈ ofMaking watched d x := by
    rw [ofMaking, hfirst.firstMissing?_eq]
    exact mem_ifSeen.mpr ⟨hseen, rfl⟩
  cases h with
  | written hthere hseen =>
    refine ⟨.modified l, ?_, List.mem_singleton_self l⟩
    rw [ofChange, if_pos hthere]
    exact mem_ifSeen.mpr ⟨hseen, rfl⟩
  | dated hfile hseen =>
    refine ⟨.modified l, ?_, List.mem_singleton_self l⟩
    rw [ofChange, if_pos hfile]
    exact mem_ifSeen.mpr ⟨hseen, rfl⟩
  | writtenAnew hfree hfirst hseen =>
    refine ⟨.created l, ?_, List.mem_singleton_self l⟩
    rw [ofChange, hfree]
    exact hmade hfirst hseen
  | filled hfirst hseen =>
    refine ⟨.created l, ?_, List.mem_singleton_self l⟩
    rw [ofChange, hfirst.missing]
    exact hmade hfirst hseen
  | made hfirst hseen => exact ⟨.created l, hmade hfirst hseen, List.mem_singleton_self l⟩
  | removed hbelow hthere hseen =>
    exact ⟨.removed l, List.mem_flatMap.mpr ⟨l, mem_fromBelow.mpr ⟨hbelow, hthere⟩,
      mem_ofRemoval.mpr ⟨rfl, hseen⟩⟩, List.mem_singleton_self l⟩
  | left hne ls hseen =>
    refine ⟨.renamed [l], ?_, List.mem_singleton_self l⟩
    rw [ofChange, if_neg hne]
    rcases hseen with hseen | hseen <;> simp [ofMove, mem_ifSeen, hseen]
  | arrived hne ls hseen =>
    refine ⟨.renamed [l], ?_, List.mem_singleton_self l⟩
    rw [ofChange, if_neg hne]
    simp [ofMove, mem_ifSeen, hseen]

theorem notifies_ofChange (watched : List Location) (d : Disk) (c : DiskChange) :
    Notifies watched d c (ofChange watched d c) where
  sound _ he _ hl := report_of_mem_ofChange he hl
  complete := exists_mem_ofChange

lemma IsFirstMissing.not_above (hd : d.IsTree) (h : IsFirstMissing d x l) (hm : l <+: m) :
    d.isDirectory m = false := by
  rw [Bool.eq_false_iff]
  intro hdirectory
  have hl := Disk.isDirectory_iff.mp (hd.isDirectory_of_directory hm hdirectory)
  rw [h.missing] at hl
  cases hl

section Reports

variable (hwatched : ∀ z ∈ watched, root <+: z)
include hwatched

lemma under_of_sees (h : sees watched l = true) : root <+: l ∧ l ≠ root := by
  obtain ⟨hne, hmem⟩ := sees_iff.mp h
  have hroot := hwatched _ hmem
  refine ⟨hroot.trans (List.dropLast_prefix l), ?_⟩
  rintro rfl
  have hlength := hroot.length_le
  have hpos := List.length_pos_of_ne_nil hne
  rw [List.length_dropLast] at hlength
  omega

lemma Report.under (h : Report watched d c e l) : root <+: l := by
  cases h with
  | written _ hseen => exact (under_of_sees hwatched hseen).1
  | dated _ hseen => exact (under_of_sees hwatched hseen).1
  | writtenAnew _ _ hseen => exact (under_of_sees hwatched hseen).1
  | filled _ hseen => exact (under_of_sees hwatched hseen).1
  | made _ hseen => exact (under_of_sees hwatched hseen).1
  | removed _ _ hseen => exact hseen.elim (hwatched _) fun h => (under_of_sees hwatched h).1
  | left _ _ hseen => exact hseen.elim (hwatched _) fun h => (under_of_sees hwatched h).1
  | arrived _ _ hseen => exact (under_of_sees hwatched hseen).1

/-- A report of a directory is one of something new below a watched one. -/
lemma Report.makes (hd : d.IsTree) (hc : d.change c = .ok d') (hroot : c.Spares root)
    (h : Report watched d c e l) (hl : d'.isDirectory l = true) :
    Watcher.makes e = true ∧ l ≠ root := by
  cases h with
  | written hthere hseen =>
    obtain ⟨-, between, -, -, hat⟩ := Disk.exists_of_write hc
    rw [Disk.isDirectory_iff, hat, if_pos rfl] at hl
    cases hl
  | dated hfile hseen =>
    rw [(Disk.at?_of_date hc l).1] at hl
    rw [Disk.isFile, Disk.isDirectory_iff.mp hl] at hfile
    cases hfile
  | writtenAnew _ hfirst hseen => exact ⟨rfl, (under_of_sees hwatched hseen).2⟩
  | filled hfirst hseen =>
    obtain ⟨-, between, -, -, hat⟩ := Disk.exists_of_write hc
    rw [Disk.isDirectory_iff, hat, if_pos rfl] at hl
    cases hl
  | made hfirst hseen => exact ⟨rfl, (under_of_sees hwatched hseen).2⟩
  | removed hbelow _ hseen =>
    have hne : l ≠ [] := by
      rintro rfl
      exact hroot ((List.prefix_nil.mp hbelow) ▸ List.nil_prefix)
    rw [Disk.isDirectory_iff, (Disk.at?_of_remove hc).2.1 l hne hbelow] at hl
    cases hl
  | left hne ls hseen =>
    rcases hd.moves hc with ⟨hsame, -⟩ | hmoves
    · exact absurd hsame hne
    · rw [Disk.isDirectory_iff, hmoves.source _ List.prefix_rfl] at hl
      cases hl
  | arrived hne ls hseen => exact ⟨rfl, (under_of_sees hwatched hseen).2⟩

end Reports

/-- No directory was there at or below a new one, unless something has been moved onto it. -/
lemma Report.announces (hd : d.IsTree) (hc : d.change c = .ok d') (h : Report watched d c e l)
    (hmakes : Watcher.makes e = true) (hl : d'.isDirectory l = true) (hm : l <+: m)
    (hdirectory : d.isDirectory m = true) : m = l ∧ c.MovesOnto l := by
  cases h with
  | written => cases hmakes
  | dated => cases hmakes
  | removed => cases hmakes
  | filled => cases hmakes
  | writtenAnew _ hfirst =>
    rw [hfirst.not_above hd hm] at hdirectory
    cases hdirectory
  | made hfirst =>
    rw [hfirst.not_above hd hm] at hdirectory
    cases hdirectory
  | left hne =>
    rcases hd.moves hc with ⟨hsame, -⟩ | hmoves
    · exact absurd hsame hne
    · rw [Disk.isDirectory_iff, hmoves.source _ List.prefix_rfl] at hl
      cases hl
  | arrived hne =>
    rcases hd.moves hc with ⟨hsame, -⟩ | hmoves
    · exact absurd hsame hne
    · by_contra hother
      have hml : m ≠ l := fun hml => hother ⟨hml, hne, rfl⟩
      rw [Disk.isDirectory_iff, hmoves.room m hm hml] at hdirectory
      cases hdirectory

/-! ## New directories -/

lemma exists_firstMissing_of_made {way : Location} {after : Disk}
    (hmade : d.MakesWay way after) (hway : way <+: x) (hl : l <+: way) (hnew : d.at? l = none) :
    ∃ y, IsFirstMissing d x y ∧ y <+: l ∧ d.isDirectory y.dropLast = true := by
  obtain ⟨y, hfirst, hy⟩ := exists_firstMissing (hl.trans hway) hnew
  have hmissing := isFirstMissing_of_eq_some hfirst
  have hlength : y.dropLast.length < y.length := by
    have := List.length_pos_of_ne_nil hmissing.ne_nil
    rw [List.length_dropLast]
    omega
  have haround := hmissing.before _ (List.dropLast_prefix y) fun h => by
    rw [h] at hlength
    omega
  refine ⟨y, hmissing, hy, Disk.isDirectory_iff.mpr ?_⟩
  rcases hmade.free _ ((List.dropLast_prefix y).trans (hy.trans hl)) with hnone | hdirectory
  · rw [hnone] at haround
    cases haround
  · exact hdirectory

/-- A new directory came with something outside the way to the root that there is something to
report of if the place around it is watched. -/
lemma exists_report_of_new (hd : d.IsTree) (hc : d.change c = .ok d') (hroot : c.Spares root)
    (hthere : d.isDirectory root = true) (hl : d'.isDirectory l = true)
    (hold : d.isDirectory l = false) :
    ∃ y, y <+: l ∧ ¬ y <+: root ∧ d.isDirectory y.dropLast = true ∧
      (∀ m, c.MovesOnto m → m = y) ∧ (y.dropLast ∈ watched → ∃ e, Report watched d c e y) := by
  have haside {x y : Location} (hy : IsFirstMissing d x y) : ¬ y <+: root := by
    intro habove
    rw [hy.not_above hd habove] at hthere
    cases hthere
  cases hd.brings hc hl hold with
  | made hmade hway hmissing =>
    obtain ⟨y, hfirst, hy, haround⟩ :=
      exists_firstMissing_of_made hmade List.prefix_rfl hway hmissing
    exact ⟨y, hy, haside hfirst, haround, nofun,
      fun hseen => ⟨_, .made hfirst (sees_iff.mpr ⟨hfirst.ne_nil, hseen⟩)⟩⟩
  | @around x bytes time _ hmade hway hmissing hfree =>
    obtain ⟨y, hfirst, hy, haround⟩ :=
      exists_firstMissing_of_made hmade (List.dropLast_prefix x) hway hmissing
    exact ⟨y, hy, haside hfirst, haround, nofun,
      fun hseen => ⟨_, .writtenAnew hfree hfirst (sees_iff.mpr ⟨hfirst.ne_nil, hseen⟩)⟩⟩
  | @moved s t _ hmoves ht =>
    have hne : s ≠ t := by
      rintro rfl
      exact hmoves.notInto List.prefix_rfl
    have hnil : t ≠ [] := by
      rintro rfl
      exact hmoves.notOnto List.nil_prefix
    exact ⟨t, ht, hroot.2, hmoves.around, fun m hm => hm.2.symm,
      fun hseen => ⟨_, .arrived hne [] (sees_iff.mpr ⟨hnil, hseen⟩)⟩⟩

end DiskEvent

/-! ## Rules -/

lemma IgnoreFiles.mem_versioned_iff {d : Disk} {f : IgnoreFile} :
    f ∈ (IgnoreFiles.ofDisk d).versioned ↔ d.isDirectory f.directory = true ∧
      IgnoreFile.inDirectory? d [gitignoreName] f.directory = some f := by
  rw [IgnoreFiles.ofDisk, IgnoreFile.mem_collect_iff, Disk.mem_directories_iff]

namespace DiskEvent

variable {d d' : Disk} {root l m : Location} {c : DiskChange} {watched : List Location}
  {f : IgnoreFile}

/-- A place that is not touched holds the file that it held. -/
lemma bytes?_eq_or_touches (hd : d.IsTree) (hc : d.change c = .ok d')
    (hthere : (d.at? m).isSome = true) : d'.bytes? m = d.bytes? m ∨ c.Touches m := by
  have hsame (h : d'.at? m = d.at? m) : d'.bytes? m = d.bytes? m := by
    rw [Disk.bytes?, Disk.bytes?, h]
  cases c with
  | makeDirectory x =>
    exact .inl (hsame ((Disk.makesWay_of_makeDirectories hc).at?_of_isSome hthere))
  | write x bytes time =>
    obtain ⟨-, between, hmade, -, hat⟩ := Disk.exists_of_write hc
    by_cases hm : m = x
    · exact .inr hm.symm
    · exact .inl (hsame (by rw [hat, if_neg hm, hmade.at?_of_isSome hthere]))
  | date x time => exact .inl (Disk.at?_of_date hc m).2.1
  | remove x =>
    by_cases hx : x <+: m
    · exact .inr hx
    · exact .inl (hsame ((Disk.at?_of_remove hc).2.2 m hx))
  | move s t =>
    rcases hd.moves hc with ⟨-, rfl⟩ | hmoves
    · exact .inl rfl
    · by_cases hst : s <+: m ∨ t <+: m
      · refine .inr ⟨?_, hst⟩
        rintro rfl
        exact hmoves.notInto List.prefix_rfl
      · rw [not_or] at hst
        exact .inl (hsame (hmoves.other m hst.1 hst.2))

lemma isFile_of_bytes? {b : ByteArray} (h : d.bytes? l = some b) : d.isFile l = true := by
  unfold Disk.bytes? at h
  split at h
  · next hat => rw [Disk.isFile, hat]
  · cases h

/-- Rules that no longer hold were in a place that has been touched. -/
lemma touches_of_gone (hd : d.IsTree) (hc : d.change c = .ok d')
    (hf : f ∈ (IgnoreFiles.ofDisk d).versioned) (hgone : f ∉ (IgnoreFiles.ofDisk d').versioned) :
    d.isFile (f.directory ++ [gitignoreName]) = true ∧
      c.Touches (f.directory ++ [gitignoreName]) := by
  obtain ⟨-, hfile⟩ := IgnoreFiles.mem_versioned_iff.mp hf
  obtain ⟨b, hbytes, -⟩ := Option.map_eq_some_iff.mp hfile
  have hthere := isFile_of_bytes? hbytes
  refine ⟨hthere, (bytes?_eq_or_touches hd hc (Disk.isSome_of_isFile hthere)).resolve_left ?_⟩
  intro hsame
  refine hgone (IgnoreFiles.mem_versioned_iff.mpr ⟨?_, ?_⟩)
  · have hthere' := isFile_of_bytes? (hsame.trans hbytes)
    exact (hd.change hc) _ _ (Disk.isSome_of_isFile hthere')
  · rw [IgnoreFile.inDirectory?, hsame]
    exact hfile

/-- A move that touches rules of the workspace moves just these, or moves a file onto them. -/
lemma ends_of_moved_rules {s t g : Location} (hmoves : d.Moves s t d') (hunder : root <+: l)
    (hroot : ¬ s <+: root) (hmoved : (DiskChange.move s t).MovesNoRules root d)
    (hg : g = l ++ [gitignoreName]) (hfile : d.isFile g = true) (htouches : s <+: g ∨ t <+: g) :
    (s = g ∨ t = g) ∧ d.isDirectory s = false := by
  have hthere := Disk.isSome_of_isFile hfile
  have hplain : d.isDirectory g = false := by
    rw [Bool.eq_false_iff]
    intro hdirectory
    rw [Disk.isFile, Disk.isDirectory_iff.mp hdirectory] at hfile
    cases hfile
  have hends : s = g ∨ t = g := by
    refine htouches.imp (fun hs => ?_) fun ht => ?_
    · rw [hg, List.prefix_concat_iff, ← hg] at hs
      refine hs.resolve_right fun hsl => ?_
      rcases List.prefix_or_prefix_of_prefix hsl hunder with h | h
      · exact hroot h
      · rw [hg, hmoved s t rfl h _ hsl] at hfile
        cases hfile
    · by_contra hne
      rw [hmoves.room g ht (Ne.symm hne)] at hthere
      cases hthere
  refine ⟨hends, ?_⟩
  rcases hends with rfl | rfl
  · exact hplain
  · rw [← hmoves.kind hthere, hplain]

/-- When rules of a watched directory no longer hold, their place is reported, and nothing that is
reported is a directory. -/
lemma rules_reported (hd : d.IsTree) (hc : d.change c = .ok d') (hroot : c.Spares root)
    (hmoved : c.MovesNoRules root d) (hunder : root <+: f.directory)
    (hseen : f.directory ∈ watched) (hf : f ∈ (IgnoreFiles.ofDisk d).versioned)
    (hgone : f ∉ (IgnoreFiles.ofDisk d').versioned) :
    (∃ e, Report watched d c e (f.directory ++ [gitignoreName])) ∧
      ∀ e l, Report watched d c e l → d'.isDirectory l = false := by
  obtain ⟨hfile, htouches⟩ := touches_of_gone hd hc hf hgone
  set g := f.directory ++ [gitignoreName] with hg
  have hsees : sees watched g = true := sees_iff.mpr ⟨by simp [hg], by simpa [hg] using hseen⟩
  have hthere := Disk.isSome_of_isFile hfile
  cases c with
  | write x bytes time =>
    obtain rfl : x = g := htouches
    obtain ⟨-, between, -, -, hat⟩ := Disk.exists_of_write hc
    refine ⟨⟨_, .written hthere hsees⟩, fun e l h => ?_⟩
    cases h with
    | written => simp [Disk.isDirectory, hat]
    | writtenAnew hfree =>
      rw [hfree] at hthere
      cases hthere
    | filled hfirst =>
      rw [hfirst.missing] at hthere
      cases hthere
  | date x time => cases htouches
  | makeDirectory x => cases htouches
  | remove x =>
    obtain ⟨-, hremoved, -⟩ := Disk.at?_of_remove hc
    obtain ⟨entry, hentry, hplace⟩ := Disk.exists_mem_entries (by simp [hg]) hthere
    have hlisted : g ∈ d.entries.map (·.1) := List.mem_map.mpr ⟨entry, hentry, hplace⟩
    refine ⟨⟨_, .removed htouches hlisted (.inr hsees)⟩, fun e l h => ?_⟩
    cases h with
    | removed hbelow =>
      have hne : l ≠ [] := by
        rintro rfl
        exact hroot (List.prefix_nil.mp hbelow ▸ List.nil_prefix)
      simp [Disk.isDirectory, hremoved l hne hbelow]
  | move s t =>
    obtain ⟨hne, hplace⟩ := htouches
    have hmoves := (hd.moves hc).resolve_left fun hsame => hne hsame.1
    obtain ⟨hends, hplain⟩ :=
      ends_of_moved_rules hmoves hunder hroot.1 hmoved hg hfile hplace
    refine ⟨?_, fun e l h => ?_⟩
    · rcases hends with rfl | rfl
      · exact ⟨_, .left hne [] (.inr hsees)⟩
      · exact ⟨_, .arrived hne [] hsees⟩
    · cases h with
      | left => simp [Disk.isDirectory, hmoves.source _ List.prefix_rfl]
      | arrived =>
        have htarget := hmoves.isDirectory_target []
        rwa [List.append_nil, List.append_nil, hplain] at htarget

/-- A new directory is not reported of a place around rules that were there. -/
lemma Report.apart {e : DiskEvent} (hd : d.IsTree) (hc : d.change c = .ok d')
    (h : Report watched d c e l) (hmakes : Watcher.makes e = true)
    (hl : d'.isDirectory l = true) (hf : f ∈ (IgnoreFiles.ofDisk d).versioned) :
    ¬ l <+: f.directory := by
  intro hunder
  obtain ⟨hdirectory, hfile⟩ := IgnoreFiles.mem_versioned_iff.mp hf
  obtain ⟨b, hbytes, -⟩ := Option.map_eq_some_iff.mp hfile
  have hthere := Disk.isSome_of_isFile (isFile_of_bytes? hbytes)
  obtain ⟨rfl, honto⟩ := h.announces hd hc hmakes hl hunder hdirectory
  cases c with
  | move s t =>
    obtain ⟨hne, rfl⟩ := honto
    have hmoves := (hd.moves hc).resolve_left fun hsame => hne hsame.1
    rw [hmoves.room _ (List.prefix_append _ _) (by simp)] at hthere
    cases hthere
  | write => cases honto
  | date => cases honto
  | makeDirectory => cases honto
  | remove => cases honto

end DiskEvent

end CodeSearch
