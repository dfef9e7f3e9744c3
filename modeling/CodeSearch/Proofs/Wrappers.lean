import CodeSearch.Language.Basic
import CodeSearch.Proofs.AlikeTrees
import CodeSearch.Syntax.Pattern.Reader

/-!
# Wrapped declarations

An export statement wraps what it exports, and decorators wrap what they decorate. The queries
for wrappers look for the name in what is wrapped, and the chunks inside are those of its body,
so a wrapped declaration has the paths that it has alone. The queries for export statements
forget declarations of variables that are not lexical: these go by their content once they are
exported.
-/
namespace CodeSearch

open List (Forall₂)

namespace Pattern

mutual

/-- Whether two patterns are the same. -/
def decEq : (p q : Pattern) → Decidable (p = q)
  | .node f a n k ps, .node f' a' n' k' ps' =>
      have := decEqList ps ps'
      decidable_of_iff (f = f' ∧ a = a' ∧ n = n' ∧ k = k' ∧ ps = ps') (by simp)
  | .either f a n ps, .either f' a' n' ps' =>
      have := decEqList ps ps'
      decidable_of_iff (f = f' ∧ a = a' ∧ n = n' ∧ ps = ps') (by simp)
  | .node .., .either .. => isFalse nofun
  | .either .., .node .. => isFalse nofun

/-- Whether two lists of patterns are the same. -/
def decEqList : (ps qs : List Pattern) → Decidable (ps = qs)
  | [], [] => isTrue rfl
  | p :: ps, q :: qs =>
      have := decEq p q
      have := decEqList ps qs
      decidable_of_iff (p = q ∧ ps = qs) (by simp)
  | [], _ :: _ => isFalse nofun
  | _ :: _, [] => isFalse nofun

end

instance : DecidableEq Pattern :=
  decEq

/-- A node of some kind with a name of some kind; without a kind, any will do. -/
def ofName (kind name : Option String) : Pattern :=
  .node none false 0 kind [.node (some "name") false 1 name []]

/-- A node of a kind that declares variables by their names. -/
def ofVariable (kind : String) : Pattern :=
  .node none false 0 (some kind) [ofName (some "variable_declarator") (some "identifier")]

/-- A node of a kind with a pattern for the node that fills a field. -/
def around (kind field : String) (p : Pattern) : Pattern :=
  .node none false 0 (some kind) [p.inField field]

end Pattern

namespace Table

/-- The patterns that find the names of the nodes of a kind. -/
def patternsOf? (t : Table) (kind : String) : Option (List Pattern) :=
  (t.namedKind? kind).bind fun k => Pattern.parse? k.name

lemma patternsOf?_eq {t : Table} {kind : String} {k : NamedKind} {cs : List Char}
    {ps : List Pattern} (hk : t.namedKind? kind = some k) (htext : k.name = String.ofList cs)
    (hps : (Pattern.words? cs).bind (fun ws => Pattern.readAll ws.length ws) = some ps) :
    t.patternsOf? kind = some ps := by
  rw [patternsOf?, hk, Option.bind_some, htext, Pattern.parse?, String.toList_ofList]
  exact hps

/-- The query for the name of a node captures one node. -/
structure Names (t : Table) (n only : Node) : Prop where
  captured : (t.patternsOf? n.kind).map (Pattern.captured · n) = some [only]

/-- No kind is filed under a parent or marked. -/
def IsPlain (t : Table) : Prop :=
  ∀ k ∈ t.named, k.parent = none ∧ k.marker = none

instance (t : Table) : Decidable t.IsPlain :=
  inferInstanceAs (Decidable (∀ k ∈ t.named, k.parent = none ∧ k.marker = none))

end Table

/-- How declarations of a language are wrapped: the kind of the wrapper, the field of the
declaration, and the kind that the wrapper's query asks of its name. Of the kinds that the
grammar lets stand there, some have a name, which is of some kind, and others declare variables:
one for which the wrapper's query looks, and others that it forgets. -/
structure Wrapping where
  kind : String
  field : String
  name : Option String
  namedKinds : List (String × Option String)
  variableKind : Option String
  forgottenKinds : List String

namespace Wrapping

def javaScript : Wrapping where
  kind := "export_statement"
  field := "declaration"
  name := some "identifier"
  namedKinds := [
    ("function_declaration", some "identifier"),
    ("generator_function_declaration", some "identifier"),
    ("class_declaration", some "identifier")]
  variableKind := some "lexical_declaration"
  forgottenKinds := ["variable_declaration"]

def typeScript : Wrapping where
  kind := "export_statement"
  field := "declaration"
  name := none
  namedKinds := [
    ("function_declaration", some "identifier"),
    ("function_signature", some "identifier"),
    ("generator_function_declaration", some "identifier"),
    ("class_declaration", some "type_identifier"),
    ("abstract_class_declaration", some "type_identifier"),
    ("interface_declaration", some "type_identifier"),
    ("type_alias_declaration", some "type_identifier"),
    ("enum_declaration", some "identifier"),
    ("module", none),
    ("internal_module", none)]
  variableKind := some "lexical_declaration"
  forgottenKinds := ["variable_declaration", "ambient_declaration"]

def python : Wrapping where
  kind := "decorated_definition"
  field := "definition"
  name := some "identifier"
  namedKinds := [
    ("function_definition", some "identifier"),
    ("class_definition", some "identifier")]
  variableKind := none
  forgottenKinds := []

def ofLanguage? : Language → Option Wrapping
  | .javaScript => some javaScript
  | .typeScript => some typeScript
  | .tsx => some typeScript
  | .python => some python
  | .go => none
  | .rust => none

variable (r : Wrapping)

/-- What the wrapper's query asks of the declaration. -/
def patterns : List Pattern :=
  .ofName none r.name :: r.variableKind.toList.map .ofVariable

/-- What a grammar says of a declaration that may be wrapped. It wraps nothing itself, and it
has one name, or none if it declares variables. -/
structure IsDeclaration (n : Node) : Prop where
  kind : n.kind ∈ r.namedKinds.map (·.1) ++ (r.variableKind.toList ++ r.forgottenKinds)
  named : n.named = true
  extra : n.extra = false
  error : n.error = false
  inner : ∀ c ∈ n.children, c.field ≠ some "declaration" ∧ c.field ≠ some "definition"
  name : (n.children.filter fun c => c.field == some "name").length ≤ 1
  wellFormed : ∀ c ∈ n.children, c.field = some "name" → c.error = false
  nameless : n.kind ∈ r.variableKind.toList ++ r.forgottenKinds →
    ∀ c ∈ n.children, c.field ≠ some "name"

/-- A node wraps a declaration: of its children, that one alone is declared or defined. -/
structure Wraps (w d : Node) : Prop where
  kind : w.kind = r.kind
  named : w.named = true
  field : d.field = some r.field
  alone : ∃ before after, w.children = before ++ d :: after ∧
    ∀ c ∈ before ++ after, c.field ≠ some "declaration" ∧ c.field ≠ some "definition"

/-- What a table has to say of the kinds for this way of wrapping. -/
structure Suits (t : Table) : Prop where
  plain : t.IsPlain
  field : r.field = "declaration" ∨ r.field = "definition"
  container : t.isContainer r.kind = true
  wrapper : t.patternsOf? r.kind = some (r.patterns.map (Pattern.around r.kind r.field))
  ofNamed : ∀ e ∈ r.namedKinds, t.patternsOf? e.1 = some [.ofName (some e.1) e.2]
  asks : ∀ e ∈ r.namedKinds, r.name = none ∨ r.name = e.2
  ofVariable : ∀ k ∈ r.variableKind, t.patternsOf? k = some [.ofVariable k]
  apart : ∀ k ∈ r.namedKinds.map (·.1) ++ r.forgottenKinds, k ∉ r.variableKind
  forgotten : ∀ k ∈ r.forgottenKinds, t.isContainer k = false

variable {r}

-- the queries stand in the proofs as they are written, character by character
set_option maxRecDepth 2000 in
lemma suits_javaScript : javaScript.Suits .javaScript where
  plain := by decide
  field := .inl rfl
  container := by decide
  wrapper := Table.patternsOf?_eq rfl rfl (by decide +kernel)
  ofNamed := by
    simp only [javaScript, List.forall_mem_cons]
    refine ⟨?_, ?_, ?_, nofun⟩
    all_goals exact Table.patternsOf?_eq rfl rfl (by decide +kernel)
  asks := by decide
  ofVariable := by
    rintro _ ⟨⟩
    exact Table.patternsOf?_eq rfl rfl (by decide +kernel)
  apart := by decide
  forgotten := by decide

set_option maxRecDepth 2000 in
lemma suits_typeScript : typeScript.Suits .typeScript where
  plain := by decide
  field := .inl rfl
  container := by decide
  wrapper := Table.patternsOf?_eq rfl rfl (by decide +kernel)
  ofNamed := by
    simp only [typeScript, List.forall_mem_cons]
    refine ⟨?_, ?_, ?_, ?_, ?_, ?_, ?_, ?_, ?_, ?_, nofun⟩
    all_goals exact Table.patternsOf?_eq rfl rfl (by decide +kernel)
  asks := by decide
  ofVariable := by
    rintro _ ⟨⟩
    exact Table.patternsOf?_eq rfl rfl (by decide +kernel)
  apart := by decide
  forgotten := by decide

lemma suits_python : python.Suits .python where
  plain := by decide
  field := .inr rfl
  container := by decide
  wrapper := Table.patternsOf?_eq rfl rfl (by decide +kernel)
  ofNamed := by
    simp only [python, List.forall_mem_cons]
    refine ⟨?_, ?_, nofun⟩
    all_goals exact Table.patternsOf?_eq rfl rfl (by decide +kernel)
  asks := by decide
  ofVariable := nofun
  apart := by decide
  forgotten := nofun

lemma suits_table {l : Language} (h : ofLanguage? l = some r) : r.Suits l.table := by
  cases l <;> cases h
  · exact suits_javaScript
  · exact suits_python
  · exact suits_typeScript
  · exact suits_typeScript

end Wrapping

namespace Pattern

variable {n w d : Node} {ns : List Node}

/-- The names of a kind among some children. -/
def namesAmong (kind : Option String) (ns : List Node) : List Node :=
  ((candidates (some "name") false ns).map (·.1)).filter (fitsKind kind)

/-- What may fit next fills the field. -/
lemma candidates_sublist (f : String) (ns : List Node) :
    ((candidates (some f) false ns).map (·.1)).Sublist (ns.filter fun c => c.field == some f) := by
  induction ns with
  | nil => exact List.Sublist.refl _
  | cons n ns ih =>
    by_cases hfield : n.field = some f
    · cases hnamed : n.named <;> simp [candidates, fillsField, hnamed, hfield, ih]
    · cases hnamed : n.named <;> simp [candidates, fillsField, hnamed, hfield, ih]

lemma flatten_matchesAmong_name (kind : Option String) (ns : List Node) :
    (matchesAmong [.node (some "name") false 1 kind []] ns).flatten = namesAmong kind ns := by
  simp only [matchesAmong, matchesAt, namesAmong, Pattern.field, Pattern.adjoining]
  induction candidates (some "name") false ns with
  | nil => rfl
  | cons c cs ih =>
    rw [List.flatMap_cons, List.flatten_append, ih]
    by_cases hfits : fitsKind kind c.1 = true
    · simp [hfits]
    · simp [hfits]

lemma flatten_matchesAt_ofName (kind name : Option String) (n : Node) :
    (matchesAt (ofName kind name) n).flatten =
      if fitsKind kind n then namesAmong name n.children else [] := by
  rw [ofName, matchesAt]
  split
  · rw [← flatten_matchesAmong_name]
    simp
  · rfl

/-- The only child in a field is the one that may fit next. -/
lemma candidates_eq {f : String} {before after : List Node} (hnamed : d.named = true)
    (hfield : d.field = some f) (hothers : ∀ c ∈ before ++ after, c.field ≠ some f) :
    (candidates (some f) false (before ++ d :: after)).map (·.1) = [d] := by
  have hfills (c : Node) : fillsField (some f) c = true ↔ c.field = some f := by
    simp [fillsField]
  have hnone {ns : List Node} (hns : ∀ c ∈ ns, c.field ≠ some f) :
      ns.filter (fun c => c.field == some f) = [] := by
    simpa using hns
  have hback := candidates_sublist f after
  rw [hnone fun c hc => hothers c (List.mem_append_right _ hc), List.sublist_nil] at hback
  induction before with
  | nil => simp [candidates, hnamed, fillsField, hfield, hback]
  | cons c before ih =>
    have hc := hothers c List.mem_cons_self
    have hrest := ih fun c' hc' => hothers c' (List.mem_cons_of_mem _ hc')
    cases hn : c.named <;> simp [candidates, hn, fillsField, hc, hrest]

lemma matchesAt_around {r : Wrapping} (hw : r.Wraps w d) (hnamed : d.named = true)
    (hfield : r.field = "declaration" ∨ r.field = "definition") (kind : Option String)
    (ps : List Pattern) :
    matchesAt (around r.kind r.field (.node none false 0 kind ps)) w =
      matchesAt (.node none false 0 kind ps) d := by
  obtain ⟨before, after, hchildren, hothers⟩ := hw.alone
  have halone : ∀ c ∈ before ++ after, c.field ≠ some r.field := by
    intro c hc
    rcases hfield with h | h
    · rw [h]
      exact (hothers c hc).1
    · rw [h]
      exact (hothers c hc).2
  have hcandidates := candidates_eq hnamed hw.field halone
  rw [← hchildren, List.map_eq_singleton_iff] at hcandidates
  obtain ⟨⟨_, rest⟩, hcandidates, rfl⟩ := hcandidates
  have hkind : fitsKind (some r.kind) w = true := by simp [fitsKind, hw.kind, hw.named]
  rw [around, matchesAt, if_pos hkind]
  simp [matchesAmong, inField, Pattern.field, Pattern.adjoining, hcandidates, matchesAt]

end Pattern

namespace Naming

variable {t : Table} {cs : List Char} {n only : Node} {ps : List Pattern}

/-- Where no kind is filed under a parent or marked, a node goes by the one name that its query
finds, and by its content if it finds none. -/
lemma labelOf_eq_byName (hplain : t.IsPlain) (hps : t.patternsOf? n.kind = some ps)
    (hone : Pattern.captured ps n = [only]) :
    labelOf Pattern.parse? t cs n = .byName (textOf cs only) none none := by
  obtain ⟨k, hk, hps⟩ := Option.bind_eq_some_iff.mp hps
  obtain ⟨hparent, hmarker⟩ := hplain k (List.mem_of_find?_eq_some hk)
  simp [labelOf, hk, single?, hps, hone, hparent, hmarker]

lemma labelOf_eq_byContent (hps : t.patternsOf? n.kind = some ps)
    (hnone : Pattern.captured ps n = []) : labelOf Pattern.parse? t cs n = .byContent := by
  obtain ⟨k, hk, hps⟩ := Option.bind_eq_some_iff.mp hps
  simp [labelOf, hk, single?, hps, hnone]

end Naming

namespace Wrapping

open Pattern

variable {r : Wrapping} {t : Table} {n w d only : Node}

lemma IsDeclaration.fitsKind_none (hn : r.IsDeclaration n) : fitsKind none n = true := by
  simp [fitsKind, hn.named, hn.error]

/-- A declaration has the name that its own query finds, of whatever kind it is. -/
lemma IsDeclaration.namesAmong_none (hn : r.IsDeclaration n) {kind : Option String}
    (hone : namesAmong kind n.children = [only]) : namesAmong none n.children = [only] := by
  have hsublist := candidates_sublist "name" n.children
  have hlength := Nat.le_trans hsublist.length_le hn.name
  have hmem : only ∈ namesAmong kind n.children := by simp [hone]
  obtain ⟨hcandidate, hfits⟩ := List.mem_filter.mp hmem
  obtain ⟨hchild, hfield⟩ := List.mem_filter.mp (hsublist.subset hcandidate)
  have hall : (candidates (some "name") false n.children).map (·.1) = [only] := by
    obtain ⟨before, after, heq⟩ := List.append_of_mem hcandidate
    rw [heq, List.length_append, List.length_cons] at hlength
    have hbefore : before = [] := List.length_eq_zero_iff.mp (by omega)
    have hafter : after = [] := List.length_eq_zero_iff.mp (by omega)
    rw [heq, hbefore, hafter, List.nil_append]
  have hnamed : only.named = true := by
    simp only [fitsKind, Bool.and_eq_true] at hfits
    exact hfits.1
  have herror := hn.wellFormed only hchild (by simpa using hfield)
  simp [namesAmong, hall, fitsKind, hnamed, herror]

lemma IsDeclaration.namesAmong_nameless (hn : r.IsDeclaration n)
    (hkind : n.kind ∈ r.variableKind.toList ++ r.forgottenKinds) (kind : Option String) :
    namesAmong kind n.children = [] := by
  have hnone : n.children.filter (fun c => c.field == some "name") = [] := by
    simpa using hn.nameless hkind
  have hcandidates := candidates_sublist "name" n.children
  rw [hnone, List.sublist_nil] at hcandidates
  rw [namesAmong, hcandidates, List.filter_nil]

lemma captured_patterns (r : Wrapping) (n : Node) : captured r.patterns n =
    (matchesAt (ofName none r.name) n).flatten ++
      r.variableKind.toList.flatMap fun k => (matchesAt (ofVariable k) n).flatten := by
  rw [captured, patterns, List.flatMap_cons, List.flatMap_map]

lemma matchesAt_ofVariable {k : String} (h : k ≠ n.kind) : matchesAt (ofVariable k) n = [] := by
  have hkind : fitsKind (some k) n = false := by simp [fitsKind, h.symm]
  simp [ofVariable, matchesAt, hkind]

/-- The wrapper's query asks a declaration for the same as the query of its own, if its kind is
not forgotten. -/
lemma captured_of_names (hs : r.Suits t) (hn : r.IsDeclaration n)
    (hkind : n.kind ∉ r.forgottenKinds) (hone : t.Names n only) :
    captured r.patterns n = [only] := by
  have hfound := hone.captured
  rw [captured_patterns, flatten_matchesAt_ofName, if_pos hn.fitsKind_none]
  rcases List.mem_append.mp hn.kind with hnamed | hother
  · obtain ⟨e, he, hkind⟩ := List.mem_map.mp hnamed
    have hpatterns := hs.ofNamed e he
    have hvariable : ∀ k ∈ r.variableKind.toList,
        (matchesAt (ofVariable k) n).flatten = [] := by
      intro k hk
      have hne : k ≠ n.kind := by
        rintro rfl
        exact hs.apart _ (List.mem_append_left _ hnamed) (by simpa using hk)
      rw [matchesAt_ofVariable hne, List.flatten_nil]
    rw [← hkind, hpatterns] at hfound
    have hown : namesAmong e.2 n.children = [only] := by
      have hfits : fitsKind (some e.1) n = true := by simp [fitsKind, hn.named, hkind]
      simpa [captured, flatten_matchesAt_ofName, hfits] using hfound
    rw [List.flatMap_eq_nil_iff.mpr hvariable, List.append_nil]
    rcases hs.asks e he with hname | hname
    · rw [hname]
      exact hn.namesAmong_none hown
    · rw [hname]
      exact hown
  · rw [hn.namesAmong_nameless hother, List.nil_append]
    have hvariable : n.kind ∈ r.variableKind := by
      simpa [hkind] using hother
    rw [hs.ofVariable _ hvariable] at hfound
    rw [show r.variableKind = some n.kind from hvariable]
    simpa [captured] using hfound

lemma captured_of_forgotten (hs : r.Suits t) (hn : r.IsDeclaration n)
    (hkind : n.kind ∈ r.forgottenKinds) : captured r.patterns n = [] := by
  rw [captured_patterns, flatten_matchesAt_ofName, if_pos hn.fitsKind_none,
    hn.namesAmong_nameless (List.mem_append_right _ hkind), List.nil_append,
    List.flatMap_eq_nil_iff]
  intro k hk
  have hne : k ≠ n.kind := by
    rintro rfl
    exact hs.apart _ (List.mem_append_right _ hkind) (by simpa using hk)
  rw [matchesAt_ofVariable hne, List.flatten_nil]

/-- The patterns of a wrapper's query do not ask which field a declaration fills. -/
lemma captured_patterns_inField (r : Wrapping) (n : Node) (field : Option String) :
    captured r.patterns { n with field } = captured r.patterns n := by
  simp only [captured_patterns, ofName, ofVariable, matchesAt, fitsKind, List.replicate_zero,
    List.nil_append]
  rfl

lemma captured_wrapper (hs : r.Suits t) (hw : r.Wraps w d) (hnamed : d.named = true) :
    captured (r.patterns.map (around r.kind r.field)) w = captured r.patterns d := by
  simp only [captured, List.flatMap_map]
  refine List.flatMap_congr fun p hp => ?_
  rcases List.mem_cons.mp hp with rfl | hp
  · rw [ofName, matchesAt_around hw hnamed hs.field]
  · obtain ⟨k, -, rfl⟩ := List.mem_map.mp hp
    rw [ofVariable, matchesAt_around hw hnamed hs.field]

/-- What a wrapper's query captures is, in its text, what is asked of the declaration alone. -/
lemma captured_wrapper_alike {cs ds : List Char} (hs : r.Suits t) (hw : r.Wraps w d)
    (hn : r.IsDeclaration n) (hsame : Node.Alike cs ds { n with field := some r.field } d) :
    Forall₂ (Node.Alike cs ds) (captured r.patterns n)
      (captured (r.patterns.map (around r.kind r.field)) w) := by
  have hnamed : d.named = true := hsame.here.named.symm.trans hn.named
  rw [captured_wrapper hs hw hnamed, ← captured_patterns_inField r n (some r.field)]
  exact captured_alike r.patterns hsame

end Wrapping

namespace Naming

variable {t : Table} {r : Wrapping} {cs ds : List Char} {n w d only : Node}

/-- A declaration is called by the one name that its own query finds. -/
lemma labelOf_declaration (hs : r.Suits t) (hone : t.Names n only) :
    labelOf Pattern.parse? t cs n = .byName (textOf cs only) none none := by
  obtain ⟨ps, hps, hcaptured⟩ := Option.map_eq_some_iff.mp hone.captured
  exact labelOf_eq_byName hs.plain hps hcaptured

lemma labelOf_wrapper (hs : r.Suits t) (hw : r.Wraps w d) (hn : r.IsDeclaration n)
    (hsame : Node.Alike cs ds { n with field := some r.field } d)
    (hkind : n.kind ∉ r.forgottenKinds) (hone : t.Names n only) :
    labelOf Pattern.parse? t ds w = .byName (textOf cs only) none none := by
  have halike := Wrapping.captured_wrapper_alike hs hw hn hsame
  rw [Wrapping.captured_of_names hs hn hkind hone] at halike
  obtain ⟨only', hwrapped, htext⟩ : ∃ only',
      Pattern.captured (r.patterns.map (Pattern.around r.kind r.field)) w = [only'] ∧
        textOf cs only = textOf ds only' := by
    match Pattern.captured (r.patterns.map (Pattern.around r.kind r.field)) w, halike with
    | _, .cons honly .nil => exact ⟨_, rfl, honly.here.text⟩
  rw [htext]
  exact labelOf_eq_byName hs.plain (hw.kind ▸ hs.wrapper) hwrapped

/-- What wraps a declaration of a forgotten kind is called by its content. -/
lemma labelOf_forgotten (hs : r.Suits t) (hw : r.Wraps w d) (hn : r.IsDeclaration n)
    (hsame : Node.Alike cs ds { n with field := some r.field } d)
    (hkind : n.kind ∈ r.forgottenKinds) :
    labelOf Pattern.parse? t ds w = .byContent := by
  have halike := Wrapping.captured_wrapper_alike hs hw hn hsame
  rw [Wrapping.captured_of_forgotten hs hn hkind, List.forall₂_nil_left_iff] at halike
  exact labelOf_eq_byContent (hw.kind ▸ hs.wrapper) halike

end Naming

namespace Table

variable {t : Table} {r : Wrapping} {n w d : Node}

lemma bodyOwner?_of_isDeclaration (hn : r.IsDeclaration n) :
    t.bodyOwner? n = if t.isContainer n.kind then some n else none := by
  have hnone (field : String) (h : ∀ c ∈ n.children, c.field ≠ some field) :
      n.childByField? field = none := by
    rw [Node.childByField?, List.find?_eq_none]
    intro c hc
    simp [h c hc]
  simp only [bodyOwner?, hnone _ fun c hc => (hn.inner c hc).1,
    hnone _ fun c hc => (hn.inner c hc).2, Option.or_none]
  cases t.isContainer n.kind <;> rfl

lemma bodyOwner?_of_wraps (hs : r.Suits t) (hw : r.Wraps w d) (hextra : d.extra = false) :
    t.bodyOwner? w = if t.isContainer d.kind then some d else none := by
  obtain ⟨before, after, hchildren, hothers⟩ := hw.alone
  have hother {field : String} (hne : r.field ≠ field)
      (h : ∀ c ∈ before ++ after, c.field ≠ some field) : w.childByField? field = none := by
    rw [Node.childByField?, List.find?_eq_none, hchildren]
    intro c hc
    rcases List.mem_append.mp hc with hc | hc
    · simp [h c (List.mem_append_left _ hc)]
    rcases List.mem_cons.mp hc with rfl | hc
    · simp [hw.field, hne]
    · simp [h c (List.mem_append_right _ hc)]
  have hfound (h : ∀ c ∈ before ++ after, c.field ≠ some r.field) :
      w.childByField? r.field = some d := by
    have hbefore : before.find? (fun c => c.field == some r.field && !c.extra) = none := by
      rw [List.find?_eq_none]
      intro c hc
      simp [h c (List.mem_append_left _ hc)]
    rw [Node.childByField?, hchildren, List.find?_append, hbefore, Option.none_or,
      List.find?_cons_of_pos (by simp [hw.field, hextra])]
  have hinner : (w.childByField? "declaration").or (w.childByField? "definition") = some d := by
    rcases hs.field with hfield | hfield
    · rw [← hfield, hfound fun c hc => hfield ▸ (hothers c hc).1, Option.some_or]
    · rw [hother (by simp [hfield]) fun c hc => (hothers c hc).1, Option.none_or, ← hfield,
        hfound fun c hc => hfield ▸ (hothers c hc).2]
  simp only [bodyOwner?, hw.kind, hs.container, hinner]
  rfl

lemma bodyOf?_wrapped {cs ds : List Char} (hs : r.Suits t) (hw : r.Wraps w d)
    (hn : r.IsDeclaration n) (hsame : Node.Alike cs ds { n with field := some r.field } d)
    (lead lead' : List Node) :
    Option.Rel (Node.Alike cs ds) (t.bodyOf? ⟨lead, n, false⟩) (t.bodyOf? ⟨lead', w, false⟩) := by
  have hextra : d.extra = false := hsame.here.extra.symm.trans hn.extra
  have hkind : n.kind = d.kind := hsame.here.kind
  have hbody := hsame.childByField? "body"
  simp only [bodyOf?, body?, bodyOwner?_of_isDeclaration hn, bodyOwner?_of_wraps hs hw hextra,
    hkind]
  cases t.isContainer d.kind
  · exact .none
  · exact hbody

/-- Nothing is nested in a declaration of a forgotten kind, be it wrapped or not. -/
lemma nested_forgotten {cs ds : List Char} (hs : r.Suits t) (hw : r.Wraps w d)
    (hn : r.IsDeclaration n) (hsame : Node.Alike cs ds { n with field := some r.field } d)
    (hkind : n.kind ∈ r.forgottenKinds) (lead lead' : List Node) :
    t.nested ⟨lead, n, false⟩ = [] ∧ t.nested ⟨lead', w, false⟩ = [] := by
  have hbody : t.bodyOf? ⟨lead, n, false⟩ = none := by
    simp [bodyOf?, body?, bodyOwner?_of_isDeclaration hn, hs.forgotten _ hkind]
  have hinside := t.nested_alike (bodyOf?_wrapped hs hw hn hsame lead lead')
  have hnone : t.nested ⟨lead, n, false⟩ = [] := by rw [nested, hbody]
  rw [hnone, List.forall₂_nil_left_iff] at hinside
  exact ⟨hnone, hinside⟩

end Table

namespace Extraction

/-- The table is that of a language, and its queries are read as they are written. -/
structure Reads (x : Extraction) (l : Language) : Prop where
  table : x.table = l.table
  compile : l.table.CompiledAlike x.compile Pattern.parse?

lemma Reads.labelOf_eq {x : Extraction} {l : Language} (hx : x.Reads l) (n : Node) :
    Naming.labelOf x.compile x.table x.source n =
      Naming.labelOf Pattern.parse? l.table x.source n := by
  rw [hx.table, Naming.labelOf_congr hx.compile]

/-- The paths of the chunk of a node, with folded nodes in front of it, and of the chunks nested
in it. -/
def pathsAt (x : Extraction) (scope : String) (taken : List String) (lead : List Node)
    (n : Node) : List String :=
  (x.ofSection scope taken (.mk ⟨lead, n, false⟩ (x.table.nested ⟨lead, n, false⟩))).1.map (·.path)

variable {x x' : Extraction} {scope : String} {taken : List String} {lead : List Node} {n : Node}

lemma pathsAt_of_byName {name path : String}
    (h : Naming.labelOf x.compile x.table x.source n = .byName name none none)
    (hpath : path = Naming.freePath taken (Naming.join scope name)) :
    x.pathsAt scope taken lead n = path ::
      (x.ofSections path (path :: taken) (x.table.nested ⟨lead, n, false⟩)).1.map (·.path) := by
  have hlabel : x.labelOf ⟨lead, n, false⟩ = .byName name none none := h
  simp only [pathsAt, ofSection, hlabel, Naming.basePath, Naming.innerScope, Option.getD_none,
    String.empty_append, ← hpath, List.map_cons]
  rfl

lemma pathsAt_of_byContent (h : Naming.labelOf x.compile x.table x.source n = .byContent)
    (hnested : x.table.nested ⟨lead, n, false⟩ = []) :
    x.pathsAt scope taken lead n =
      [Naming.freePath taken
        (Naming.join scope (Digest.ofText (Naming.textOf x.source n)))] := by
  have hlabel : x.labelOf ⟨lead, n, false⟩ = .byContent := h
  simp only [pathsAt, ofSection, hlabel, Naming.basePath, hnested, ofSections, List.map_cons,
    List.map_nil]
  rfl

lemma paths_ofSections (htable : x.table = x'.table)
    (hcompile : x.table.CompiledAlike x.compile x'.compile)
    {ss ss' : List Section} (h : Forall₂ (Section.Alike x.source x'.source) ss ss') :
    (x.ofSections scope taken ss).1.map (·.path) =
      (x'.ofSections scope taken ss').1.map (·.path) := by
  have htitles := congrArg (List.map Prod.fst) (titles_ofSections htable hcompile scope taken h).1
  rwa [List.map_map, List.map_map] at htitles

/-- Wrappers are transparent but for the kinds that are forgotten. A declaration whose own query
finds one name has, wrapped, the same paths as alone, those of what is nested in it included. A
declaration of a forgotten kind goes by its name alone and by its content when it is wrapped. -/
theorem wrapped_declaration_keeps_paths {l : Language} {r : Wrapping}
    (hr : Wrapping.ofLanguage? l = some r) (hx : x.Reads l) (hx' : x'.Reads l)
    {n d w only : Node} (hn : r.IsDeclaration n) (hone : l.table.Names n only)
    (hsame : Node.Alike x.source x'.source { n with field := some r.field } d)
    (hw : r.Wraps w d) :
    (n.kind ∉ r.forgottenKinds → ∀ scope taken lead lead',
      x'.pathsAt scope taken lead' w = x.pathsAt scope taken lead n) ∧
    (n.kind ∈ r.forgottenKinds → ∀ scope taken lead lead',
      x.pathsAt scope taken lead n =
        [Naming.freePath taken (Naming.join scope (Naming.textOf x.source only))] ∧
      x'.pathsAt scope taken lead' w = [Naming.freePath taken
        (Naming.join scope (Digest.ofText (Naming.textOf x'.source w)))]) := by
  have hs := Wrapping.suits_table hr
  have hlabel : Naming.labelOf x.compile x.table x.source n =
      .byName (Naming.textOf x.source only) none none := by
    rw [hx.labelOf_eq]
    exact Naming.labelOf_declaration hs hone
  constructor
  · intro hkind scope taken lead lead'
    have hlabel' : Naming.labelOf x'.compile x'.table x'.source w =
        .byName (Naming.textOf x.source only) none none := by
      rw [hx'.labelOf_eq]
      exact Naming.labelOf_wrapper hs hw hn hsame hkind hone
    have hinside : Forall₂ (Section.Alike x.source x'.source)
        (x.table.nested ⟨lead, n, false⟩) (x'.table.nested ⟨lead', w, false⟩) := by
      rw [hx.table, hx'.table]
      exact l.table.nested_alike (Table.bodyOf?_wrapped hs hw hn hsame lead lead')
    have hcompile : x.table.CompiledAlike x.compile x'.compile := by
      rw [hx.table]
      exact fun kind query hquery =>
        (hx.compile kind query hquery).trans (hx'.compile kind query hquery).symm
    rw [pathsAt_of_byName hlabel rfl, pathsAt_of_byName hlabel' rfl,
      paths_ofSections (hx.table.trans hx'.table.symm) hcompile hinside]
  · intro hkind scope taken lead lead'
    obtain ⟨hnested, hnested'⟩ := Table.nested_forgotten hs hw hn hsame hkind lead lead'
    rw [← hx.table] at hnested
    rw [← hx'.table] at hnested'
    have hlabel' : Naming.labelOf x'.compile x'.table x'.source w = .byContent := by
      rw [hx'.labelOf_eq]
      exact Naming.labelOf_forgotten hs hw hn hsame hkind
    rw [pathsAt_of_byName hlabel rfl, hnested, pathsAt_of_byContent hlabel' hnested']
    exact ⟨rfl, rfl⟩

section Exports

def script (source : String) : Extraction where
  table := Language.javaScript.table
  compile := Pattern.parse?
  source := source.toList
  file := "src/a.js"
  fileType := .src
  parsedAt := 0

lemma reads_script (source : String) : (script source).Reads .javaScript :=
  ⟨rfl, fun _ _ _ => rfl⟩

/-- A class `A` with a method `m`, from an offset on. -/
def classAt (field : Option String) (offset : ℕ) : Node where
  kind := "class_declaration"
  field := field
  start := offset
  stop := offset + 18
  children := [
    { kind := "identifier", field := some "name", start := offset + 6, stop := offset + 7 },
    { kind := "class_body", field := some "body", start := offset + 8, stop := offset + 18
      children := [
        { kind := "method_definition", start := offset + 10, stop := offset + 16
          children := [
            { kind := "property_identifier", field := some "name", start := offset + 10
              stop := offset + 11 },
            { kind := "formal_parameters", field := some "parameters", start := offset + 11
              stop := offset + 13 },
            { kind := "statement_block", field := some "body", start := offset + 14
              stop := offset + 16 }] }] }]

def variableAt (field : Option String) (offset : ℕ) : Node where
  kind := "variable_declaration"
  field := field
  start := offset
  stop := offset + 11
  children := [
    { kind := "variable_declarator", start := offset + 4, stop := offset + 10
      children := [
        { kind := "identifier", field := some "name", start := offset + 4, stop := offset + 6 },
        { kind := "number", field := some "value", start := offset + 9, stop := offset + 10 }] }]

def exported (declaration : Node) : Node where
  kind := "export_statement"
  start := 0
  stop := declaration.stop
  children := [{ kind := "export", start := 0, stop := 6, named := false }, declaration]

lemma wraps_exported {d : Node} (hd : d.field = some "declaration") :
    Wrapping.javaScript.Wraps (exported d) d :=
  ⟨rfl, rfl, hd, [_], [], rfl, by simp⟩

/-- A class has a path for itself and one for its method, exported or not. -/
theorem exported_class_keeps_paths :
    (script "class A \x7b m() \x7b\x7d \x7d\n").pathsAt "" [] [] (classAt none 0) =
      ["A", "A::m"] ∧
    (script "export class A \x7b m() \x7b\x7d \x7d\n").pathsAt "" [] []
      (exported (classAt (some "declaration") 7)) =
        (script "class A \x7b m() \x7b\x7d \x7d\n").pathsAt "" [] [] (classAt none 0) := by
  have hn : Wrapping.javaScript.IsDeclaration (classAt none 0) := by
    constructor <;> decide
  have hone : Language.javaScript.table.Names (classAt none 0)
      { kind := "identifier", field := some "name", start := 6, stop := 7 } :=
    ⟨congrArg (Option.map (Pattern.captured · (classAt none 0)))
      (Wrapping.suits_javaScript.ofNamed ("class_declaration", some "identifier") (by decide))⟩
  have hsame : Node.Alike (script "class A \x7b m() \x7b\x7d \x7d\n").source
      (script "export class A \x7b m() \x7b\x7d \x7d\n").source
      (classAt (some "declaration") 0) (classAt (some "declaration") 7) := by
    simp only [classAt, Node.alike_iff, Node.resembles_iff, List.forall₂_cons, List.Forall₂.nil]
    decide +kernel
  refine ⟨by decide +kernel, ?_⟩
  exact (wrapped_declaration_keeps_paths (l := .javaScript) rfl (reads_script _) (reads_script _)
    hn hone hsame (wraps_exported rfl)).1 (by decide) "" [] [] []

/-- A variable declared by `var` loses its name when it is exported. -/
theorem exported_variable_loses_name :
    Wrapping.javaScript.IsDeclaration (variableAt none 0) ∧
    Language.javaScript.table.Names (variableAt none 0)
      { kind := "identifier", field := some "name", start := 4, stop := 6 } ∧
    Node.Alike (script "var ev = 1;\n").source (script "export var ev = 1;\n").source
      (variableAt (some "declaration") 0) (variableAt (some "declaration") 7) ∧
    Wrapping.javaScript.Wraps (exported (variableAt (some "declaration") 7))
      (variableAt (some "declaration") 7) ∧
    (script "var ev = 1;\n").pathsAt "" [] [] (variableAt none 0) = ["ev"] ∧
    (script "export var ev = 1;\n").pathsAt "" [] []
      (exported (variableAt (some "declaration") 7)) = ["f119149995aba686"] := by
  refine ⟨by constructor <;> decide, ⟨?_⟩, ?_, wraps_exported rfl, by decide +kernel,
    by decide +kernel⟩
  · have hpatterns : Language.javaScript.table.patternsOf? "variable_declaration" =
        some [.ofVariable "variable_declaration"] :=
      Table.patternsOf?_eq rfl rfl (by decide +kernel)
    exact congrArg (Option.map (Pattern.captured · (variableAt none 0))) hpatterns
  · simp only [variableAt, Node.alike_iff, Node.resembles_iff, List.forall₂_cons, List.Forall₂.nil]
    decide +kernel

end Exports

end Extraction

end CodeSearch
