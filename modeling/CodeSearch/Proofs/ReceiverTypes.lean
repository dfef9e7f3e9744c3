import CodeSearch.Proofs.UniquePaths
import CodeSearch.Proofs.Wrappers

/-!
# Methods under the types of their receivers

A method of Go is filed under the type that its receiver names, whether that is a pointer to the
type or the type itself and whether or not the receiver is given a name. The query for the type
does not look into a type with arguments: a method of such a type goes by its content, and the
type is in its path nowhere.
-/
namespace CodeSearch

namespace Node

structure IsA (n : Node) (kind : String) : Prop where
  kind : n.kind = kind
  named : n.named = true

/-- A comment, which may stand between any two children of a node. -/
abbrev IsComment (n : Node) : Prop :=
  n.IsA "comment"

/-- Of the children of a node in a field, one is all there is but comments. Without a field, it
is all there is of its named children. -/
structure HasSole (n : Node) (field : Option String) (c : Node) : Prop where
  named : c.named = true
  fills : Pattern.fillsField field c = true
  alone : ∃ before after, n.children = before ++ c :: after ∧ ∀ o ∈ before ++ after,
    o.named = true ∨ field.isSome = true → Pattern.fillsField field o = true → o.IsComment

end Node

namespace Pattern

variable {p : Pattern} {n c : Node} {before after : List Node} {kind : String}

lemma fitsKind_of_isA (h : n.IsA kind) : fitsKind (some kind) n = true := by
  simp [fitsKind, h.kind, h.named]

lemma matchesAt_inField (p : Pattern) (field : String) (n : Node) :
    matchesAt (p.inField field) n = matchesAt p n := by
  cases p <;> simp only [inField, matchesAt]

def SkipsComments (p : Pattern) : Prop :=
  p.adjoining = false ∧ ∀ o : Node, o.IsComment → matchesAt p o = []

/-- A single pattern is looked for at each child that may fit. -/
lemma matchesAmong_singleton (p : Pattern) (ns : List Node) :
    matchesAmong [p] ns =
      (candidates p.field p.adjoining ns).flatMap fun c => matchesAt p c.1 := by
  simp [matchesAmong]

/-- Nothing is found at children that are comments or do not fill the field, and a search goes on
behind them. -/
lemma matchesAmong_skips (hp : p.SkipsComments) (hbefore : ∀ o ∈ before,
      o.named = true ∨ p.field.isSome = true → fillsField p.field o = true → o.IsComment)
    (ns : List Node) : matchesAmong [p] (before ++ ns) = matchesAmong [p] ns := by
  obtain ⟨hadjoining, hcomments⟩ := hp
  simp only [matchesAmong_singleton, hadjoining]
  induction before with
  | nil => rfl
  | cons o before ih =>
    obtain ⟨ho, hbefore⟩ := List.forall_mem_cons.mp hbefore
    rw [← ih hbefore, List.cons_append]
    by_cases hfills : fillsField p.field o = true
    · cases hnamed : o.named
      · -- an unnamed child would end the search only if it filled a field
        have hfield : p.field = none := by
          by_contra h
          have := (ho (.inr (Option.isSome_iff_ne_none.mpr h)) hfills).named
          simp [hnamed] at this
        simp [candidates, hnamed, hfield]
      · simp [candidates, hnamed, hfills, hcomments o (ho (.inl hnamed) hfills)]
    · cases hnamed : o.named <;> simp [candidates, hnamed, hfills]

/-- Where one child is all there is, a pattern is matched by that child alone. -/
lemma matchesAmong_sole (hp : p.SkipsComments) (h : n.HasSole p.field c) :
    matchesAmong [p] n.children = matchesAt p c := by
  obtain ⟨before, after, hchildren, halone⟩ := h.alone
  rw [List.forall_mem_append] at halone
  have hback := matchesAmong_skips hp halone.2 []
  rw [List.append_nil, matchesAmong_singleton, hp.1] at hback
  rw [hchildren, matchesAmong_skips hp halone.1, matchesAmong_singleton, hp.1]
  simp [candidates, h.named, h.fills, hback, matchesAmong_singleton]

/-- A node with one child of interest is matched as that child is. -/
lemma matchesAt_sole {field : Option String} (hkind : n.IsA kind)
    (hp : p.SkipsComments) (h : n.HasSole p.field c) :
    matchesAt (.node field false 0 (some kind) [p]) n = matchesAt p c := by
  rw [matchesAt, if_pos (fitsKind_of_isA hkind), matchesAmong_sole hp h]
  simp

lemma SkipsComments.inField (hp : p.SkipsComments) (field : String) :
    (p.inField field).SkipsComments := by
  refine ⟨?_, fun o ho => ?_⟩
  · cases p <;> exact hp.1
  · rw [matchesAt_inField]
    exact hp.2 o ho

lemma matchesAt_around_sole {field : String} (hkind : n.IsA kind) (hp : p.SkipsComments)
    (h : n.HasSole (some field) c) : matchesAt (around kind field p) n = matchesAt p c := by
  have hfield : (p.inField field).field = some field := by cases p <;> rfl
  rw [← hfield] at h
  rw [around, matchesAt_sole hkind (hp.inField field) h, matchesAt_inField]

lemma skipsComments_node {field : Option String} {captures : ℕ} {ps : List Pattern}
    (hkind : kind ≠ "comment") : (node field false captures (some kind) ps).SkipsComments := by
  refine ⟨rfl, fun o ho => ?_⟩
  have hunfit : fitsKind (some kind) o = false := by simp [fitsKind, ho.kind, hkind.symm]
  simp [matchesAt, hunfit]

/-- What has no branch for a comment fits none. -/
lemma skipsComments_either {field : Option String} {captures : ℕ} {ps : List Pattern}
    (hps : ∀ q ∈ ps, q.SkipsComments) : (either field false captures ps).SkipsComments := by
  refine ⟨rfl, fun o ho => ?_⟩
  have hnone : matchesOfAny ps o = [] := by
    induction ps with
    | nil => rfl
    | cons q qs ih =>
      obtain ⟨hq, hqs⟩ := List.forall_mem_cons.mp hps
      simp [matchesOfAny, hq.2 o ho, ih hqs]
  simp [matchesAt, hnone]

end Pattern

/-- The forms in which a receiver gives its type: as it is or by a pointer, with arguments or
without. -/
inductive ReceiverForm where
  | plain
  | pointer
  | generic
  | genericPointer
  deriving DecidableEq, Repr

namespace ReceiverForm

/-- The type is given arguments. -/
def IsGeneric (form : ReceiverForm) : Prop :=
  form = generic ∨ form = genericPointer

instance (form : ReceiverForm) : Decidable form.IsGeneric :=
  inferInstanceAs (Decidable (_ ∨ _))

end ReceiverForm

namespace Node

/-- A type in one of the forms that a receiver may have, with the identifier it is based on. -/
inductive HasBase : ReceiverForm → Node → Node → Prop
  | plain {base : Node} (hbase : base.IsA "type_identifier") : HasBase .plain base base
  | pointer {type base : Node} (htype : type.IsA "pointer_type") (hsole : type.HasSole none base)
      (hbase : base.IsA "type_identifier") : HasBase .pointer type base
  | generic {type base : Node} (htype : type.IsA "generic_type")
      (hsole : type.HasSole (some "type") base) (hbase : base.IsA "type_identifier") :
      HasBase .generic type base
  | genericPointer {type inner base : Node} (htype : type.IsA "pointer_type")
      (hsole : type.HasSole none inner) (hinner : HasBase .generic inner base) :
      HasBase .genericPointer type base

/-- What the grammar says of a method: it has a name and one receiver, and the receiver is of one
type, be there a variable for it or not. -/
structure IsMethod (n name : Node) (form : ReceiverForm) (base : Node) : Prop where
  kind : n.IsA "method_declaration"
  sole : n.HasSole (some "name") name
  name : name.IsA "field_identifier"
  receiver : ∃ receivers declaration type, n.HasSole (some "receiver") receivers ∧
    receivers.IsA "parameter_list" ∧ receivers.HasSole none declaration ∧
    declaration.IsA "parameter_declaration" ∧ declaration.HasSole (some "type") type ∧
    HasBase form type base

end Node

namespace Pattern

/-- An identifier of a type, captured. -/
def typeName : Pattern :=
  .node none false 1 (some "type_identifier") []

/-- The type of a receiver: an identifier, or a pointer to one. -/
def receiverType : Pattern :=
  .either none false 0 [typeName, .node none false 0 (some "pointer_type") [typeName]]

def receiver : Pattern :=
  around "method_declaration" "receiver" (.node none false 0 (some "parameter_list")
    [around "parameter_declaration" "type" receiverType])

variable {form : ReceiverForm} {name type base : Node}

lemma matchesAt_typeName (h : base.IsA "type_identifier") : matchesAt typeName base = [[base]] := by
  simp [typeName, matchesAt, fitsKind_of_isA h, matchesAmong]

lemma matchesAt_other {field : Option String} {captures : ℕ} {ps : List Pattern} {actual : String}
    (h : n.IsA actual) (hne : actual ≠ kind) :
    matchesAt (.node field false captures (some kind) ps) n = [] := by
  have hunfit : fitsKind (some kind) n = false := by simp [fitsKind, h.kind, hne]
  simp [matchesAt, hunfit]

lemma matchesAt_typeName_other {actual : String} (h : n.IsA actual)
    (hne : actual ≠ "type_identifier") : matchesAt typeName n = [] :=
  matchesAt_other h hne

lemma skipsComments_typeName : typeName.SkipsComments :=
  skipsComments_node (by decide)

lemma skipsComments_receiverType : receiverType.SkipsComments := by
  refine skipsComments_either ?_
  simp only [List.forall_mem_cons]
  exact ⟨skipsComments_typeName, skipsComments_node (by decide), nofun⟩

lemma matchesAt_receiverType_eq (n : Node) : matchesAt receiverType n =
    matchesAt typeName n ++ matchesAt (.node none false 0 (some "pointer_type") [typeName]) n := by
  simp [receiverType, matchesAt, matchesOfAny, typeName, Pattern.field, fillsField]

/-- The identifier of a type is found unless the type has arguments. -/
lemma matchesAt_receiverType (h : Node.HasBase form type base) :
    matchesAt receiverType type = if form.IsGeneric then [] else [[base]] := by
  rw [matchesAt_receiverType_eq]
  cases h with
  | plain hbase =>
    rw [matchesAt_typeName hbase, matchesAt_other hbase (by decide)]
    rfl
  | pointer htype hsole hbase =>
    rw [matchesAt_typeName_other htype (by decide),
      matchesAt_sole htype skipsComments_typeName hsole, matchesAt_typeName hbase]
    rfl
  | generic htype =>
    rw [matchesAt_typeName_other htype (by decide), matchesAt_other htype (by decide)]
    rfl
  | genericPointer htype hsole hinner =>
    cases hinner with
    | generic hgeneric =>
      rw [matchesAt_typeName_other htype (by decide),
        matchesAt_sole htype skipsComments_typeName hsole,
        matchesAt_typeName_other hgeneric (by decide)]
      rfl

/-- The query for receivers finds the identifier of the type unless it has arguments. -/
lemma captured_receiver (h : n.IsMethod name form base) :
    captured [receiver] n = if form.IsGeneric then [] else [base] := by
  obtain ⟨receivers, declaration, type, hreceivers, hlist, hdeclaration, hkind, htype, hbase⟩ :=
    h.receiver
  have hmatches : matchesAt receiver n = if form.IsGeneric then [] else [[base]] := by
    have hskips : (around "parameter_declaration" "type" receiverType).SkipsComments :=
      skipsComments_node (by decide)
    rw [receiver, matchesAt_around_sole h.kind (skipsComments_node (by decide)) hreceivers,
      matchesAt_sole hlist hskips hdeclaration,
      matchesAt_around_sole hkind skipsComments_receiverType htype, matchesAt_receiverType hbase]
  rw [captured, List.flatMap_singleton, hmatches]
  split <;> rfl

lemma captured_methodName (h : n.IsMethod name form base) :
    captured [ofName (some "method_declaration") (some "field_identifier")] n = [name] := by
  have hname : matchesAt (.node (some "name") false 1 (some "field_identifier") []) name =
      [[name]] := by
    simp [matchesAt, fitsKind_of_isA h.name, matchesAmong]
  rw [captured, List.flatMap_singleton, ofName,
    matchesAt_sole h.kind (skipsComments_node (by decide)) h.sole, hname]
  rfl

lemma parse?_eq {text : String} {cs : List Char} {ps : List Pattern}
    (htext : text = String.ofList cs)
    (hps : (words? cs).bind (fun ws => readAll ws.length ws) = some ps) :
    parse? text = some ps := by
  rw [htext, parse?, String.toList_ofList]
  exact hps

end Pattern

namespace Naming

variable {cs : List Char} {n name base : Node} {form : ReceiverForm}

-- the longer query has more characters than the default depth allows for
set_option maxRecDepth 2000 in
lemma exists_methodQueries : ∃ k query, Language.go.table.namedKind? "method_declaration" = some k ∧
    k.parent = some query ∧ k.marker = none ∧
    Pattern.parse? k.name =
      some [.ofName (some "method_declaration") (some "field_identifier")] ∧
    Pattern.parse? query = some [Pattern.receiver] :=
  ⟨_, _, rfl, rfl, rfl, Pattern.parse?_eq rfl (by decide +kernel),
    Pattern.parse?_eq rfl (by decide +kernel)⟩

/-- A method is called by its name under the type of its receiver, but by its content if the type
has arguments. -/
lemma labelOf_method (h : n.IsMethod name form base) :
    labelOf Pattern.parse? Language.go.table cs n = if form.IsGeneric then .byContent
      else .byName (textOf cs name) (some (textOf cs base)) none := by
  obtain ⟨k, query, hk, hparent, hmarker, hname, hreceiver⟩ := exists_methodQueries
  have hnamed : single? Pattern.parse? cs k.name n = some (textOf cs name) := by
    simp [single?, hname, Pattern.captured_methodName h]
  have hreceived : single? Pattern.parse? cs query n =
      if form.IsGeneric then none else some (textOf cs base) := by
    by_cases hgeneric : form.IsGeneric <;>
      simp [single?, hreceiver, Pattern.captured_receiver h, hgeneric]
  rw [labelOf, h.kind.kind, hk]
  by_cases hgeneric : form.IsGeneric <;> simp [hnamed, hparent, hmarker, hreceived, hgeneric]

/-- The path that a method asks for: its name under the identifier of its receiver's type, or a
digest of its text if that type has arguments. -/
def methodPath (cs : List Char) (n name : Node) (form : ReceiverForm) (base : Node) : String :=
  if form.IsGeneric then Digest.ofText (textOf cs n)
  else ChunkId.ofParts (textOf cs base) (textOf cs name)

lemma basePath_method (h : n.IsMethod name form base) (hbase : textOf cs base ≠ "") :
    basePath (labelOf Pattern.parse? Language.go.table cs n) cs "" n =
      methodPath cs n name form base := by
  rw [labelOf_method h, methodPath]
  by_cases hgeneric : form.IsGeneric <;> simp [basePath, join, hgeneric, hbase]

end Naming

lemma Group.exists_mem_ofLevel {t : Table} {n : Node} {ns : List Node} (hn : n ∈ ns)
    (hskips : t.skips n.kind = false) (hfolds : t.folds n.kind = false) (lead : List Node) :
    ∃ lead', ⟨lead', n, false⟩ ∈ ofLevel t lead ns := by
  induction ns generalizing lead with
  | nil => simp at hn
  | cons m ns ih =>
    rcases List.mem_cons.mp hn with rfl | hn
    · exact ⟨lead, by simp [ofLevel, hskips, hfolds]⟩
    rw [ofLevel]
    split
    · obtain ⟨lead', h⟩ := ih hn []
      exact ⟨lead', List.mem_append_right _ h⟩
    split
    · exact ih hn (lead ++ [m])
    · obtain ⟨lead', h⟩ := ih hn []
      exact ⟨lead', List.mem_cons_of_mem _ h⟩

namespace Extraction

variable {x : Extraction} {scope : String} {groups : List Group} {visits : List Visit} {g : Group}

/-- Every group of a level is visited in the scope of the level. -/
lemma Visits.exists_visit (h : x.Visits scope groups visits) (hg : g ∈ groups) :
    ∃ before v after, visits = before ++ v :: after ∧ v.group = g ∧ v.scope = scope := by
  induction h with
  | nil => simp at hg
  | @leaf scope g' gs v vs hgroup hscope _ _ ih =>
    rcases List.mem_cons.mp hg with rfl | hg
    · exact ⟨[], v, vs, rfl, hgroup, hscope⟩
    · obtain ⟨before, u, after, rfl, hu⟩ := ih hg
      exact ⟨v :: before, u, after, rfl, hu⟩
  | @container scope g' gs body v inside vs hgroup hscope _ _ _ _ ih =>
    rcases List.mem_cons.mp hg with rfl | hg
    · exact ⟨[], v, inside ++ vs, rfl, hgroup, hscope⟩
    · obtain ⟨before, u, after, rfl, hu⟩ := ih hg
      exact ⟨v :: (inside ++ before), u, after, by simp, hu⟩

/-- Every method of a file of Go makes a chunk. Its path is the name of the method under the
identifier of its receiver's type, be the receiver a pointer or not and named or not, and a digest
of its text if the type has arguments, or the first number with it that no earlier chunk has. -/
theorem methods_are_filed_under_receivers (hx : x.Reads .go) {root n name base : Node}
    {form : ReceiverForm} (hn : n ∈ root.namedChildren) (hmethod : n.IsMethod name form base)
    (hbase : Naming.textOf x.source base ≠ "") :
    ∃ before c after lead, x.chunks root = before ++ c :: after ∧
      c = x.chunkOf ⟨lead, n, false⟩ c.path ∧
      Naming.IsFirstFree (before.map (·.path))
        (Naming.methodPath x.source n name form base) c.path := by
  have hkind : n.kind = "method_declaration" := hmethod.kind.kind
  obtain ⟨lead, hgroup⟩ : ∃ lead, ⟨lead, n, false⟩ ∈ x.table.level root := by
    rw [hx.table]
    apply Group.exists_mem_ofLevel hn
    · rw [hkind]
      rfl
    · rw [hkind]
      rfl
  obtain ⟨visits, hvisits, hresolves, hchunks⟩ := x.exists_visits root
  obtain ⟨before, v, after, rfl, hv, hscope⟩ := hvisits.exists_visit hgroup
  have hwanted : x.wanted v = Naming.methodPath x.source n name form base := by
    have hlabel : x.labelOf v.group =
        Naming.labelOf Pattern.parse? Language.go.table x.source n := by
      rw [hv, ← hx.labelOf_eq]
      rfl
    rw [wanted, hlabel, hscope, hv]
    exact Naming.basePath_method hmethod hbase
  refine ⟨before.map x.chunkOfVisit, x.chunkOfVisit v, after.map x.chunkOfVisit, lead, ?_, ?_, ?_⟩
  · rw [hchunks, List.map_append, List.map_cons]
  · rw [chunkOfVisit, hv]
    rfl
  · have hfirst := x.isFirstFree_of_resolves hresolves
    rw [hwanted] at hfirst
    rw [List.map_map]
    exact hfirst

section Stacks

def goFile (source : String) : Extraction where
  table := Language.go.table
  compile := Pattern.parse?
  source := source.toList
  file := "src/stack.go"
  fileType := .src
  parsedAt := 0

def pushName (type : Node) : Node where
  kind := "field_identifier"
  field := some "name"
  start := type.stop + 2
  stop := type.stop + 6

/-- A method `Push` on a variable of a type, which stands from the eighth byte on. -/
def push (type : Node) : Node where
  kind := "method_declaration"
  start := 0
  stop := type.stop + 14
  children := [
    { kind := "parameter_list", field := some "receiver", start := 5, stop := type.stop + 1
      children := [
        { kind := "parameter_declaration", start := 6, stop := type.stop
          children := [
            { kind := "identifier", field := some "name", start := 6, stop := 7 }, type] }] },
    pushName type,
    { kind := "parameter_list", field := some "parameters", start := type.stop + 6
      stop := type.stop + 11
      children := [
        { kind := "parameter_declaration", start := type.stop + 7, stop := type.stop + 10
          children := [
            { kind := "identifier", field := some "name", start := type.stop + 7
              stop := type.stop + 8 },
            { kind := "type_identifier", field := some "type", start := type.stop + 9
              stop := type.stop + 10 }] }] },
    { kind := "block", field := some "body", start := type.stop + 12, stop := type.stop + 14 }]

/-- A file with a method and nothing else. -/
def fileOf (method : Node) : Node where
  kind := "source_file"
  start := 0
  stop := method.stop
  children := [method]

def stack : Node where
  kind := "type_identifier"
  start := 9
  stop := 14

/-- A pointer to what stands behind a star. -/
def pointerTo (type : Node) : Node where
  kind := "pointer_type"
  field := some "type"
  start := 8
  stop := type.stop
  children := [type]

/-- The type `Stack[T]` behind a star. -/
def genericStack : Node where
  kind := "generic_type"
  start := 9
  stop := 17
  children := [
    { stack with field := some "type" },
    { kind := "type_arguments", field := some "type_arguments", start := 14, stop := 17
      children := [
        { kind := "type_elem", start := 15, stop := 16
          children := [{ kind := "type_identifier", start := 15, stop := 16 }] }] }]

lemma isMethod_push {type base : Node} {form : ReceiverForm} (hbase : Node.HasBase form type base)
    (hfield : type.field = some "type") (hnamed : type.named = true) :
    (push type).IsMethod (pushName type) form base where
  kind := ⟨rfl, rfl⟩
  sole := ⟨rfl, rfl, [_], [_, _], rfl, by simp [Pattern.fillsField]⟩
  name := ⟨rfl, rfl⟩
  receiver := by
    refine ⟨_, _, type, ⟨rfl, rfl, [], [_, _, _], rfl, ?_⟩, ⟨rfl, rfl⟩,
      ⟨rfl, rfl, [], [], rfl, by simp⟩, ⟨rfl, rfl⟩, ⟨hnamed, ?_, [_], [], rfl, ?_⟩, hbase⟩
    · simp [Pattern.fillsField, pushName]
    · simp [Pattern.fillsField, hfield]
    · simp [Pattern.fillsField]

/-- A method on a pointer to `Stack` is filed under `Stack`. -/
theorem push_is_filed_under_stack :
    ∃ before c after lead,
      (goFile "func (s *Stack) Push(v T) \x7b\x7d").chunks (fileOf (push (pointerTo stack))) =
        before ++ c :: after ∧
      c = (goFile "func (s *Stack) Push(v T) \x7b\x7d").chunkOf
        ⟨lead, push (pointerTo stack), false⟩ c.path ∧
      Naming.IsFirstFree (before.map (·.path)) "Stack::Push" c.path := by
  have hbase : Node.HasBase .pointer (pointerTo stack) stack :=
    .pointer ⟨rfl, rfl⟩ ⟨rfl, rfl, [], [], rfl, by simp⟩ ⟨rfl, rfl⟩
  have hpath : Naming.methodPath (goFile "func (s *Stack) Push(v T) \x7b\x7d").source
      (push (pointerTo stack)) (pushName (pointerTo stack)) .pointer stack = "Stack::Push" := by
    decide +kernel
  rw [← hpath]
  exact methods_are_filed_under_receivers ⟨rfl, fun _ _ _ => rfl⟩
    (by simp [Node.namedChildren, fileOf, push]) (isMethod_push hbase rfl rfl) (by decide +kernel)

/-- A method on a pointer to `Stack[T]` is filed under a digest of its text. -/
theorem push_is_filed_under_digest :
    (push (pointerTo genericStack)).IsMethod (pushName (pointerTo genericStack)) .genericPointer
      { stack with field := some "type" } ∧
    ((goFile "func (s *Stack[T]) Push(v T) \x7b\x7d").chunks
      (fileOf (push (pointerTo genericStack)))).map (·.path) = ["53829fbec242cc04"] := by
  have hbase : Node.HasBase .genericPointer (pointerTo genericStack)
      { stack with field := some "type" } :=
    .genericPointer ⟨rfl, rfl⟩ ⟨rfl, rfl, [], [], rfl, by simp⟩
      (.generic ⟨rfl, rfl⟩ ⟨rfl, rfl, [], [_], rfl, by simp [Pattern.fillsField]⟩ ⟨rfl, rfl⟩)
  exact ⟨isMethod_push hbase rfl rfl, by decide +kernel⟩

end Stacks

end Extraction

end CodeSearch
