import CodeSearch.Embedding.Table
import CodeSearch.Proofs.FileReadings
import CodeSearch.Proofs.IncrementalRuns
import CodeSearch.Proofs.ReadBackChunks

/-!
# Sources of chunks

A request for the sources of some chunks brings the file of each identifier in line with
the disk, unless it has done so before, and then looks the chunk up in the index. What is
said of an identifier is therefore what the disk shows, whatever the index had of the file
and whatever other identifiers the request names.
-/
namespace CodeSearch

namespace Text

/-- A place in a text is no further down and no further to the right than the text has
bytes. -/
lemma advance_le {p : Position} (hp : 1 ≤ p.column) (n : ℕ) (cs : List Char) :
    (advance p n cs).line ≤ p.line + (String.ofList cs).utf8ByteSize ∧
      (advance p n cs).column ≤ p.column + (String.ofList cs).utf8ByteSize := by
  induction cs generalizing p n with
  | nil => cases n <;> simp [advance]
  | cons c cs ih =>
    have hsize : (String.ofList (c :: cs)).utf8ByteSize =
        c.utf8Size + (String.ofList cs).utf8ByteSize := by
      rw [String.ofList_cons, String.utf8ByteSize_append, String.utf8ByteSize_singleton]
    have hpos := c.utf8Size_pos
    cases n with
    | zero => simp [advance]
    | succ n =>
      rw [advance, hsize]
      split
      · dsimp only
        omega
      · split
        · have hrest := @ih ⟨p.line + 1, 1⟩ le_rfl (n + 1 - c.utf8Size)
          dsimp only at hrest
          omega
        · have hrest := @ih ⟨p.line, p.column + c.utf8Size⟩ (by dsimp only; omega)
            (n + 1 - c.utf8Size)
          dsimp only at hrest
          omega

/-- The places in a text whose size fits into 64 bits have lines and columns that do. -/
lemma positionAt_le {text : String} (htext : text.utf8ByteSize < Integer.greatestNat)
    (offset : ℕ) : (positionAt text.toList offset).line ≤ Integer.greatestNat ∧
      (positionAt text.toList offset).column ≤ Integer.greatestNat := by
  have hplace := advance_le (p := ⟨1, 1⟩) le_rfl offset text.toList
  rw [String.ofList_toList] at hplace
  dsimp only at hplace
  exact ⟨by rw [positionAt]; omega, by rw [positionAt]; omega⟩

end Text

section Answers

variable [QueryCompiler]

/-- The numbers of the current chunks of a file fit into 64 bits if those of the clock and
of the size of the file do. -/
lemma fits_of_mem_currentChunks {grammar : Grammar} {d : Disk} {root : Location} {file : String}
    {now : ℤ} (hnow : Integer.Fits now)
    (hsize : ∀ text, d.readText (Index.pathOf root file) = .ok text →
      text.utf8ByteSize < Integer.greatestNat)
    {c : Chunk} (hc : c ∈ currentChunks grammar d root file now) : c.Fits := by
  rcases currentChunks_cases grammar d root file with h | ⟨-, x, tree, text, -, hread, hsource, h⟩
  · rw [h] at hc
    cases hc
  · have hplaces := Text.positionAt_le (hsize text hread)
    obtain ⟨visits, -, -, hchunks⟩ := (x.readAt now).exists_visits tree
    rw [h, hchunks] at hc
    obtain ⟨v, -, rfl⟩ := List.mem_map.mp hc
    rw [← hsource] at hplaces
    exact ⟨hnow, (hplaces _).1, (hplaces _).2, (hplaces _).1, (hplaces _).2⟩

lemma Chunker.IsOf.fst_chunkFile {l : Language} {k : Chunker} (h : k.IsOf l) {file : String}
    (hclass : k.classify file ≠ .ignored) (parse : String → Node) (d : Disk) (root : Location)
    (now : ℤ) : (k.chunkFile parse d root file now).1 =
      match d.readText (Index.pathOf root file) with
      | .error fault => .error (.io fault)
      | .ok source => .ok ⟨file, (k.extraction file source now).chunks (parse source)⟩ := by
  unfold chunkFile
  split
  · next heq => exact absurd heq hclass
  · rw [Index.pathOf]
    cases d.readText (Path.join root.path file) with
    | error fault => rfl
    | ok source =>
      dsimp only
      rw [h.chunkSource_fst, if_neg hclass]

/-- Why a file that stands on a disk cannot be cut into chunks. A file that is gone or that
is ignored has no chunks, which is no fault. -/
def readingFault? (d : Disk) (root : Location) (file : String) : Option IndexError :=
  if d.has (Index.pathOf root file) then
    match Language.ofPath? file with
    | none => some (.chunker .unsupportedLanguage)
    | some l =>
        match Chunker.create (some l) with
        | .error e => some (.chunker e)
        | .ok k =>
            if k.classify file = .ignored then none
            else
              match d.readText (Index.pathOf root file) with
              | .error fault => some (.chunker (.io fault))
              | .ok _ => none
  else none

inductive SourceAnswer where
  | invalid
  | failed (cause : IndexError)
  | found (source : String)
  | missing
  deriving DecidableEq, Repr

namespace SourceAnswer

def text : SourceAnswer → String
  | invalid => "<invalid chunk id>"
  | failed cause => "<processing error: " ++ cause.message ++ ">"
  | found source => source
  | missing => "<source not found for chunk>"

def block (id : String) (answer : SourceAnswer) : String :=
  "== " ++ id ++ " ==\n\n" ++ answer.text ++ "\n\n"

/-- What is to be said of a chunk that is looked for among some chunks. -/
def among (chunks : List Chunk) (id : String) : SourceAnswer :=
  match chunks.find? fun c => c.id == id with
  | some c => .found c.source
  | none => .missing

/-- What a disk has to say of an identifier. -/
def onDisk (grammar : Grammar) (d : Disk) (root : Location) (id : String) : SourceAnswer :=
  match ChunkId.split? id with
  | none => .invalid
  | some (file, _) =>
      if file = "" ∨ Path.isAbsolute file = true ∨ .parent ∈ Path.components file then .invalid
      else
        match readingFault? d root file with
        | some cause => .failed cause
        | none => among (currentChunks grammar d root file 0) id

/-- The time at which the chunks were read makes no difference. -/
lemma among_currentChunks (grammar : Grammar) (d : Disk) (root : Location) (file : String)
    (now : ℤ) (id : String) : among (currentChunks grammar d root file now) id =
      among (currentChunks grammar d root file 0) id := by
  rw [currentChunks_readAt grammar d root file 0 now, among, among, List.find?_map]
  have hsame : (fun c : Chunk => c.id == id) ∘ Chunk.readAt now = fun c => c.id == id := rfl
  rw [hsame]
  cases (currentChunks grammar d root file 0).find? fun c => c.id == id <;> rfl

end SourceAnswer

end Answers

/-- An embedder that gives every text the same vector takes everything. -/
lemma Embedder.takes_ofTable_empty (dimensions : ℕ) (documents : List Document) :
    (ofTable .empty dimensions).Takes documents := by
  refine .inr ⟨documents.map fun _ => List.replicate dimensions .zero, ?_, by simp, ?_⟩
  · simp [ofTable, Catalog.get?, Catalog.empty]
  · simp [ofTable]

namespace Index

lemma embedder_of_remove {x y : Index Store} {file : String} (h : x.remove file = .ok y) :
    y.store.embedder = x.store.embedder := by
  obtain ⟨⟨count, store⟩, hdelete, hy⟩ := Except.bind_eq_ok.mp h
  obtain rfl := Except.pure_eq_ok.mp hy
  exact Store.embedder_of_delete hdelete

lemma embedder_replace (x : Index Store) (chunked : ChunkedFile) :
    (x.replace chunked).2.store.embedder = x.store.embedder := by
  unfold replace
  split
  · rfl
  · next y hremove =>
    have hy := embedder_of_remove hremove
    split
    · exact hy
    · split
      · exact hy
      · next store hadd => exact (Store.embedder_of_add hadd).trans hy

/-- Chunks that the embedder takes can be put in place of those of a file. -/
lemma fst_replace {x : Index Store} (hx : x.store.documents.Keyed) {chunked : ChunkedFile}
    (htakes : x.store.embedder.Takes (chunked.chunks.map Chunk.document)) :
    (x.replace chunked).1 = .ok () := by
  obtain ⟨store, hremove, -⟩ := exists_remove hx chunked.path
  have hembedder := embedder_of_remove hremove
  unfold replace
  rw [hremove]
  dsimp only
  split
  · rfl
  · obtain ⟨store', hadd⟩ := Store.exists_add (hembedder.symm ▸ htakes)
    have hadd' : DocumentStore.add store (chunked.chunks.map Chunk.document) = .ok store' := hadd
    rw [hadd']

end Index

namespace Analyzer

lemma embedder_settleFile (a : Analyzer Store) (file : String) (reading : Option ChunkedFile) :
    (a.settleFile file reading).2.index.store.embedder = a.index.store.embedder := by
  cases reading with
  | none =>
    rw [settleFile, removeFile]
    cases hremove : a.index.remove file with
    | error e => rfl
    | ok index => exact Index.embedder_of_remove hremove
  | some chunked =>
    have hsame := a.index.embedder_replace chunked
    rw [settleFile, replaceFile]
    split <;> next h => rwa [h] at hsame

section Requests

variable [QueryCompiler] {a b : Analyzer Store} {s : Surroundings} {file : String}

lemma index_readFile (a : Analyzer Store) (s : Surroundings) (file : String) :
    (a.readFile s file).2.index = a.index := by
  unfold readFile extract
  dsimp only
  repeat' split
  all_goals rfl

lemma embedder_processFile (a : Analyzer Store) (s : Surroundings) (file : String) :
    (a.processFile s file).2.index.store.embedder = a.index.store.embedder := by
  have hread := a.index_readFile s file
  rw [processFile_eq]
  split
  · next e b h =>
    rw [h] at hread
    exact congrArg (fun x => x.store.embedder) hread
  · next reading b h =>
    rw [h] at hread
    exact (b.embedder_settleFile file reading).trans (congrArg (fun x => x.store.embedder) hread)

lemma fst_extract {l : Language} {k : Chunker} (hlanguage : Language.ofPath? file = some l)
    (hchunker : a.chunker l = .ok k) : (a.extract s file).1 =
      if k.classify file = .ignored then .ok none
      else
        match (k.chunkFile (s.grammar l) s.disk a.root file s.now).1 with
        | .error e => .error (.chunker e)
        | .ok chunked => .ok (some chunked) := by
  rw [extract, hlanguage]
  dsimp only
  rw [hchunker]
  dsimp only
  split
  · next hclass => rw [if_pos hclass]
  · next hclass =>
    rw [if_neg hclass]
    cases (k.chunkFile (s.grammar l) s.disk a.root file s.now).1 with
    | error e => rfl
    | ok chunked => rfl

/-- Reading a file fails if the disk shows a fault of it, and with that fault. -/
lemma ChunkersFit.fault_readFile (ha : a.ChunkersFit) (s : Surroundings)
    (hinside : Path.staysInside file = true) :
    match readingFault? s.disk a.root file with
    | some e => (a.readFile s file).1 = .error e
    | none => ∃ reading, (a.readFile s file).1 = .ok reading := by
  unfold Analyzer.readFile readingFault?
  rw [hinside]
  cases hhas : s.disk.has (Index.pathOf a.root file) with
  | false => exact ⟨none, rfl⟩
  | true =>
    simp only [Bool.not_true, Bool.false_eq_true, ↓reduceIte]
    cases hlanguage : Language.ofPath? file with
    | none => simp only [Analyzer.extract, hlanguage]
    | some l =>
      cases hchunker : a.chunker l with
      | error e =>
        have hcreate : Chunker.create (some l) = .error e := by
          unfold chunker at hchunker
          split at hchunker
          · cases hchunker
          · exact hchunker
        simp only [Analyzer.extract, hlanguage, hchunker, hcreate]
      | ok k =>
        -- a chunker that is kept classifies as a new one does
        have hk := ha.isOf_chunker hchunker
        obtain ⟨k₀, hcreate, -, hrules⟩ := hk.made
        have hclass : k₀.classify file = k.classify file := by
          rw [Chunker.classify, Chunker.classify, hrules]
        rw [fst_extract hlanguage hchunker]
        simp only [hcreate, hclass]
        by_cases hignored : k.classify file = .ignored
        · rw [if_pos hignored, if_pos hignored]
          exact ⟨none, rfl⟩
        · rw [if_neg hignored, if_neg hignored, hk.fst_chunkFile hignored]
          cases s.disk.readText (Index.pathOf a.root file) with
          | error fault => rfl
          | ok source => exact ⟨_, rfl⟩

lemma Sound.fst_settleFile (ha : a.Sound) {reading : Option ChunkedFile}
    (htakes : a.index.store.embedder.Takes
      (((reading.map (·.chunks)).getD []).map Chunk.document)) :
    (a.settleFile file reading).1 = .ok () := by
  cases reading with
  | none =>
    obtain ⟨b, hremove, -⟩ := ha.removeFile file
    rw [Analyzer.settleFile, hremove]
  | some chunked =>
    have hreplace := Index.fst_replace ha.keyed htakes
    rw [Analyzer.settleFile, Analyzer.replaceFile]
    split
    · next h =>
      rw [h] at hreplace
      cases hreplace
    · rfl

/-- A file can be stored as it stands on the disk: the embedder takes its chunks, and the
size of its text fits into 64 bits. -/
structure IsStorable (e : Embedder) (s : Surroundings) (root : Location) (file : String) : Prop
    where
  takes : e.Takes ((currentChunks s.grammar s.disk root file s.now).map Chunk.document)
  countable : ∀ text, s.disk.readText (Index.pathOf root file) = .ok text →
    text.utf8ByteSize < Integer.greatestNat

/-- Processing a file that can be stored fails if the disk shows a fault of it, and with that
fault. -/
lemma Sound.fst_processFile (ha : a.Sound) (hinside : Path.staysInside file = true)
    (hfile : IsStorable a.index.store.embedder s a.root file) :
    (a.processFile s file).1 =
      match readingFault? s.disk a.root file with
      | some e => .error e
      | none => .ok () := by
  have hfault := ha.chunkers.fault_readFile s hinside
  obtain ⟨hframe, hreads⟩ := ha.readFile s file
  have hindex := a.index_readFile s file
  rw [processFile_eq]
  cases hread : a.readFile s file with
  | mk outcome b =>
    rw [hread] at hfault hframe hreads hindex
    cases hshown : readingFault? s.disk a.root file with
    | some e =>
      rw [hshown] at hfault
      obtain rfl : outcome = .error e := hfault
      rfl
    | none =>
      rw [hshown] at hfault
      obtain ⟨reading, rfl⟩ : ∃ reading, outcome = .ok reading := hfault
      have htakes := hfile.takes
      rw [← (hreads reading rfl).chunks, ← hindex] at htakes
      exact (hframe.sound ha).fst_settleFile htakes

/-- What a request knows of a file that it has processed is what the disk shows: its fault, or
that its chunks are stored as they are. -/
def IsRefreshed (s : Surroundings) (a : Analyzer Store) (file : String)
    (outcome : Option IndexError) : Prop :=
  outcome = readingFault? s.disk a.root file ∧
    (outcome = none →
      a.stored.Keeps file (currentChunks s.grammar s.disk a.root file s.now))

/-- A request is under way that has processed some files. -/
structure Serving (s : Surroundings) (root : Location) (e : Embedder) (done : Refreshed)
    (a : Analyzer Store) : Prop where
  sound : a.Sound
  root : a.root = root
  embedder : a.index.store.embedder = e
  known : ∀ file outcome, done.lookup file = some outcome → IsRefreshed s a file outcome

variable {root : Location} {e : Embedder} {done : Refreshed}

/-- A file that the request has not processed yet is processed, and its fault is noted. -/
lemma Sound.refresh_eq (ha : a.Sound) (hinside : Path.staysInside file = true)
    (hfile : IsStorable a.index.store.embedder s a.root file) (hnew : done.lookup file = none) :
    a.refresh s done file = (readingFault? s.disk a.root file,
      (file, readingFault? s.disk a.root file) :: done, (a.processFile s file).2) := by
  have houtcome := ha.fst_processFile hinside hfile
  unfold Analyzer.refresh
  rw [hnew]
  cases hprocess : a.processFile s file with
  | mk outcome b =>
    rw [hprocess] at houtcome
    cases hshown : readingFault? s.disk a.root file with
    | some cause =>
      rw [hshown] at houtcome
      obtain rfl : outcome = .error cause := houtcome
      rfl
    | none =>
      rw [hshown] at houtcome
      obtain rfl : outcome = .ok () := houtcome
      rfl

/-- The request goes on after a file has been processed that it needs. -/
lemma Serving.refresh (h : Serving s root e done a) (hname : ChunkId.Separable file)
    (hinside : Path.staysInside file = true) (hfile : IsStorable e s root file) :
    Serving s root e (a.refresh s done file).2.1 (a.refresh s done file).2.2 ∧
      IsRefreshed s (a.refresh s done file).2.2 file (a.refresh s done file).1 := by
  cases hlookup : done.lookup file with
  | some outcome =>
    unfold Analyzer.refresh
    rw [hlookup]
    exact ⟨h, h.known file outcome hlookup⟩
  | none =>
    rw [← h.embedder, ← h.root] at hfile
    obtain ⟨hone, hothers, hkeeps⟩ := h.sound.processed s hname
    have hembedder := a.embedder_processFile s file
    have houtcome := h.sound.fst_processFile hinside hfile
    have hrefreshed : IsRefreshed s (a.processFile s file).2 file
        (readingFault? s.disk a.root file) := by
      rw [IsRefreshed, hone.root]
      refine ⟨rfl, fun hnone => hkeeps ?_⟩
      rw [houtcome, hnone]
      rfl
    rw [h.sound.refresh_eq hinside hfile hlookup]
    refine ⟨⟨hone.sound, hone.root.trans h.root, hembedder.trans h.embedder, ?_⟩, hrefreshed⟩
    intro other outcome hother
    rw [List.lookup_cons] at hother
    split at hother
    · next heq =>
      obtain rfl := Option.some.inj hother
      rwa [beq_iff_eq.mp heq]
    · next hne =>
      -- another file is stored as it was before
      obtain ⟨hshown, hcurrent⟩ := h.known other outcome hother
      rw [IsRefreshed, hone.root]
      exact ⟨hshown, fun hnone => (hcurrent hnone).congr (hothers other (by simpa using hne))⟩

/-- A chunk of a file is looked up among those that are stored of the file. -/
lemma Sound.storedSource_eq (ha : a.Sound) {id path : String}
    (hid : ChunkId.split? id = some (file, path)) {chunks : List Chunk}
    (hkeeps : a.stored.Keeps file chunks) (hfits : ∀ c ∈ chunks, c.Fits) :
    a.storedSource id = (SourceAnswer.among chunks id).text := by
  have hofFile : a.stored.ofFile file id = a.stored id := by
    cases hstored : a.stored id with
    | none => simp [Contents.ofFile, hstored]
    | some d =>
      obtain ⟨hd, owner, ⟨path', hpath'⟩, howner⟩ := ha.filed id d hstored
      rw [hd, hid] at hpath'
      obtain ⟨rfl, -⟩ := Prod.mk.inj (Option.some.inj hpath')
      simp [Contents.ofFile, hstored, howner]
  have hfound := hkeeps id
  have hget : DocumentStore.get? a.index.store id = a.stored id := rfl
  rw [hofFile, List.find?_map] at hfound
  rw [storedSource, Index.chunk?, hget, SourceAnswer.among]
  cases hfind : chunks.find? ((fun d : Document => d.id == id) ∘ Chunk.document) with
  | none =>
    rw [hfind, Option.map_none, Option.map_eq_none_iff] at hfound
    have hnone : (chunks.find? fun c => c.id == id) = none := hfind
    rw [hfound, hnone]
    rfl
  | some c =>
    rw [hfind] at hfound
    have hsome : (chunks.find? fun c => c.id == id) = some c := hfind
    obtain ⟨d, hd, hdocument⟩ := Option.map_eq_some_iff.mp hfound
    have hc := hfits c (List.mem_of_find?_eq_some hfind)
    rw [hd, hsome]
    dsimp only
    rw [StoredDocument.chunk_of_chunk hdocument hc]
    rfl

/-- The request answers an identifier as the disk does and goes on. -/
lemma Serving.sourceOf (h : Serving s root e done a) (hclock : Integer.Fits s.now) {id : String}
    (hfile : ∀ file path, ChunkId.split? id = some (file, path) →
      Path.staysInside file = true → IsStorable e s root file) :
    Serving s root e (a.sourceOf s done id).2.1 (a.sourceOf s done id).2.2 ∧
      (a.sourceOf s done id).1 = (SourceAnswer.onDisk s.grammar s.disk root id).text := by
  unfold Analyzer.sourceOf SourceAnswer.onDisk
  cases hsplit : ChunkId.split? id with
  | none => exact ⟨h, rfl⟩
  | some parts =>
    obtain ⟨file, path⟩ := parts
    dsimp only
    cases hinside : Path.staysInside file with
    | false =>
      rw [if_pos ((Path.staysInside_eq_false_iff file).mp hinside)]
      exact ⟨h, rfl⟩
    | true =>
      have houtside := (Path.staysInside_eq_false_iff file).not.mp (by simp [hinside])
      have hstorable := hfile file path hsplit hinside
      obtain ⟨hserving, hrefreshed⟩ :=
        h.refresh (ChunkId.separable_of_split? hsplit) hinside hstorable
      rw [if_neg houtside]
      cases hrefresh : a.refresh s done file with
      | mk outcome rest =>
        obtain ⟨done', b⟩ := rest
        rw [hrefresh] at hserving hrefreshed
        obtain ⟨hshown, hcurrent⟩ := hrefreshed
        rw [hserving.root] at hshown hcurrent
        dsimp only at hshown hcurrent hserving
        rw [← hshown]
        cases outcome with
        | some cause => exact ⟨hserving, rfl⟩
        | none =>
          refine ⟨hserving, ?_⟩
          have hfits : ∀ c ∈ currentChunks s.grammar s.disk root file s.now, c.Fits :=
            fun c hc => fits_of_mem_currentChunks hclock hstorable.countable hc
          have hsource := hserving.sound.storedSource_eq hsplit (hcurrent rfl) hfits
          rw [SourceAnswer.among_currentChunks] at hsource
          exact hsource

/-- All identifiers of a request are answered as the disk does. -/
lemma Serving.sourcesFrom (h : Serving s root e done a) (hclock : Integer.Fits s.now)
    {ids : List String} (hfiles : ∀ id ∈ ids, ∀ file path,
      ChunkId.split? id = some (file, path) → Path.staysInside file = true →
        IsStorable e s root file) :
    (Analyzer.sourcesFrom s done a ids).1 =
      ids.map fun id => (SourceAnswer.onDisk s.grammar s.disk root id).block id := by
  induction ids generalizing done a with
  | nil => rfl
  | cons id ids ih =>
    rw [List.forall_mem_cons] at hfiles
    obtain ⟨hserving, hanswer⟩ := h.sourceOf hclock hfiles.1
    rw [Analyzer.sourcesFrom, List.map_cons, ← ih hserving hfiles.2, SourceAnswer.block, ← hanswer]

/-- What is said of an identifier is what the disk shows. It depends neither on the other
identifiers of the request nor on what was indexed before. -/
theorem sources_follow_disk (ha : a.Reached) (s : Surroundings) (ids : List String)
    (hclock : Integer.Fits s.now)
    (hfiles : ∀ id ∈ ids, ∀ file path, ChunkId.split? id = some (file, path) →
      Path.staysInside file = true → IsStorable a.index.store.embedder s a.root file) :
    (a.sources s ids).1 = String.join
      (ids.map fun id => (SourceAnswer.onDisk s.grammar s.disk a.root id).block id) := by
  have hserving : Serving s a.root a.index.store.embedder [] a :=
    ⟨ha.sound, rfl, rfl, by simp⟩
  rw [← hserving.sourcesFrom hclock hfiles]
  rfl

end Requests

/-- An analyzer that has indexed nothing yet. -/
def unusedAnalyzer : Analyzer Store where
  root := ["work"]
  config := {}
  index := { root := ["work"], store := .inMemory (.ofTable .empty 2) }

/-- A workspace with a file that can be indexed and one that cannot. -/
def smallWorkspace : Surroundings where
  disk := ⟨[(["work"], .directory), (["work", "main.rs"], .file "fn main() {}".toUTF8 1),
    (["work", "notes.txt"], .file "notes".toUTF8 1)]⟩
  now := 2
  grammar := Workspace.plainGrammar

/-- Good and bad identifiers, of which the first comes twice. -/
def mixedIds : List String :=
  let good := ChunkId.ofParts "main.rs" (Digest.ofText "fn main() {}")
  [good, "main.rs::other", good, "gone.rs::main", "notes.txt::main", "main.rs", "::main",
    "/main.rs::main", "../main.rs::main"]

attribute [local instance] QueryCompiler.plain

lemma isStorable_mixedIds : ∀ id ∈ mixedIds, ∀ file path,
    ChunkId.split? id = some (file, path) → Path.staysInside file = true →
      IsStorable (.ofTable .empty 2) smallWorkspace ["work"] file := by
  have hsizes : ∀ id ∈ mixedIds, ((ChunkId.split? id).all fun parts =>
      (smallWorkspace.disk.readText (Index.pathOf ["work"] parts.1)).toOption.all fun text =>
        text.utf8ByteSize < Integer.greatestNat) = true := by decide +kernel
  intro id hid file path hsplit _
  refine ⟨Embedder.takes_ofTable_empty 2 _, fun text htext => ?_⟩
  have hsize := hsizes id hid
  rw [hsplit, Option.all_some, htext] at hsize
  simpa [Except.toOption] using hsize

theorem mixed_ids_answered :
    unusedAnalyzer.Reached ∧ Integer.Fits smallWorkspace.now ∧
    (unusedAnalyzer.sources smallWorkspace mixedIds).1 = String.join (mixedIds.map fun id =>
      (SourceAnswer.onDisk smallWorkspace.grammar smallWorkspace.disk ["work"] id).block id) ∧
    mixedIds.map (SourceAnswer.onDisk smallWorkspace.grammar smallWorkspace.disk ["work"]) =
      [.found "fn main() {}", .missing, .found "fn main() {}", .missing,
        .failed (.chunker .unsupportedLanguage), .invalid, .invalid, .invalid, .invalid] := by
  have hreached : unusedAnalyzer.Reached := .fresh rfl
  have hclock : Integer.Fits smallWorkspace.now := by decide
  exact ⟨hreached, hclock,
    sources_follow_disk hreached smallWorkspace mixedIds hclock isStorable_mixedIds,
    by decide +kernel⟩

end Analyzer

end CodeSearch
