import CodeSearch.Proofs.Visits

/-!
# The groups of a level

The named children of a level fall into pieces, in order and without a gap: groups, and
single nodes that are left out. No group reaches across a node that is left out. A folded
node stands alone exactly where the folded nodes from it on run up to a node that is
left out or to the end of the level.
-/
namespace CodeSearch

namespace Group

def nodes (g : Group) : List Node :=
  g.lead ++ [g.node]

lemma head?_nodes (g : Group) : g.nodes.head? = some g.first := by
  cases h : g.lead <;> simp [nodes, first, h]

lemma getLast?_nodes (g : Group) : g.nodes.getLast? = some g.node := by
  simp [nodes]

@[simp] lemma nodes_lone (n : Node) : (lone n).nodes = [n] := rfl

end Group

inductive Piece where
  | skipped (n : Node)
  | group (g : Group)

namespace Piece

def nodes : Piece → List Node
  | skipped n => [n]
  | group g => g.nodes

def group? : Piece → Option Group
  | skipped _ => none
  | group g => some g

end Piece

namespace Table

variable (t : Table)

/-- A node waits for the one behind it: its kind is folded and not left out. -/
def waits (n : Node) : Bool :=
  t.folds n.kind && !t.skips n.kind

/-- The waiting nodes in front run up to a node that is left out or to the end. -/
def EndsRun (ns : List Node) : Prop :=
  ∀ n, ns.find? (fun n => !t.waits n) = some n → t.skips n.kind = true

/-- A group consists of waiting nodes and one that is neither folded nor left out, or of
one waiting node alone. -/
inductive FitsGroup : Group → Prop
  | led {lead : List Node} {n : Node} (hlead : ∀ m ∈ lead, t.waits m = true)
      (hskip : t.skips n.kind = false) (hfold : t.folds n.kind = false) :
      FitsGroup ⟨lead, n, false⟩
  | lone {n : Node} (hwaits : t.waits n = true) : FitsGroup (Group.lone n)

lemma FitsGroup.not_skips {t : Table} {g : Group} (h : t.FitsGroup g) {n : Node}
    (hn : n ∈ g.nodes) : t.skips n.kind = false := by
  have hwaiting {m : Node} (hm : t.waits m = true) : t.skips m.kind = false := by
    rw [waits, Bool.and_eq_true, Bool.not_eq_true'] at hm
    exact hm.2
  cases h with
  | lone hwaits =>
    obtain rfl := List.mem_singleton.mp hn
    exact hwaiting hwaits
  | led hlead hskip _ =>
    rcases List.mem_append.mp hn with hn | hn
    · exact hwaiting (hlead n hn)
    · obtain rfl := List.mem_singleton.mp hn
      exact hskip

/-- A piece is a group as it should be, or a node of a kind that is left out. -/
def FitsPiece : Piece → Prop
  | .skipped n => t.skips n.kind = true
  | .group g => t.FitsGroup g

/-- Every group with a waiting node alone stands in front of the end of a run. -/
def Ordered : List Piece → Prop
  | [] => True
  | p :: ps => (∀ n, p = .group (.lone n) → t.EndsRun (ps.flatMap Piece.nodes)) ∧ Ordered ps

variable {t}

lemma endsRun_of_waits {lead ns : List Node} (hlead : ∀ m ∈ lead, t.waits m = true) :
    t.EndsRun (lead ++ ns) ↔ t.EndsRun ns := by
  have hfind : lead.find? (fun n => !t.waits n) = none := by
    rw [List.find?_eq_none]
    intro m hm
    simp [hlead m hm]
  simp [EndsRun, List.find?_append, hfind]

lemma endsRun_nil : t.EndsRun [] := by
  simp [EndsRun]

lemma endsRun_cons_iff {n : Node} {ns : List Node} (hn : t.waits n = false) :
    t.EndsRun (n :: ns) ↔ t.skips n.kind = true := by
  simp [EndsRun, hn]

/-- Some pieces, in order, of some children: groups and nodes that are left out. -/
structure Pieces (t : Table) (children : List Node) (groups : List Group)
    (pieces : List Piece) : Prop where
  nodes : pieces.flatMap Piece.nodes = children
  groups : pieces.filterMap Piece.group? = groups
  fits : ∀ p ∈ pieces, t.FitsPiece p
  ordered : t.Ordered pieces

lemma Pieces.cons {ns : List Node} {groups : List Group} {pieces : List Piece}
    (h : Pieces t ns groups pieces) (p : Piece) (hp : t.FitsPiece p)
    (hns : ∀ n, p = .group (.lone n) → t.EndsRun ns) :
    Pieces t (p.nodes ++ ns) (p.group?.toList ++ groups) (p :: pieces) := by
  refine ⟨?_, ?_, List.forall_mem_cons.mpr ⟨hp, h.fits⟩, ⟨fun n hn => ?_, h.ordered⟩⟩
  · rw [List.flatMap_cons, h.nodes]
  · rw [List.filterMap_cons, h.groups]
    cases p.group? <;> rfl
  · rw [h.nodes]
    exact hns n hn

/-- Waiting nodes stand alone in front of pieces that start with the end of their run. -/
lemma Pieces.lone {lead ns : List Node} {groups : List Group} {pieces : List Piece}
    (h : Pieces t ns groups pieces) (hlead : ∀ m ∈ lead, t.waits m = true) (hns : t.EndsRun ns) :
    Pieces t (lead ++ ns) (lead.map Group.lone ++ groups)
      (lead.map (fun n => .group (Group.lone n)) ++ pieces) := by
  induction lead with
  | nil => exact h
  | cons m lead ih =>
    rw [List.forall_mem_cons] at hlead
    exact (ih hlead.2).cons (.group (.lone m)) (FitsGroup.lone hlead.1) fun _ _ =>
      (endsRun_of_waits hlead.2).mpr hns

/-- The groups of a level behind waiting nodes make pieces with the nodes left out. -/
lemma exists_pieces (lead ns : List Node) (hlead : ∀ m ∈ lead, t.waits m = true) :
    ∃ pieces, Pieces t (lead ++ ns) (Group.ofLevel t lead ns) pieces := by
  induction ns generalizing lead with
  | nil =>
    have hempty : Pieces t [] [] [] := ⟨rfl, rfl, by simp, trivial⟩
    have h := hempty.lone hlead endsRun_nil
    rw [List.append_nil (lead.map Group.lone)] at h
    exact ⟨_, h⟩
  | cons n ns ih =>
    rw [Group.ofLevel]
    by_cases hskip : t.skips n.kind = true
    · obtain ⟨pieces, h⟩ := ih [] (by simp)
      have hwaits : t.waits n = false := by simp [waits, hskip]
      have hskipped := h.cons (.skipped n) hskip (by simp)
      rw [if_pos hskip]
      exact ⟨_, hskipped.lone hlead ((endsRun_cons_iff hwaits).mpr hskip)⟩
    rw [if_neg hskip]
    by_cases hfold : t.folds n.kind = true
    · have hwaits : t.waits n = true := by simp [waits, hskip, hfold]
      obtain ⟨pieces, h⟩ := ih (lead ++ [n]) fun m hm =>
        (List.mem_append.mp hm).elim (hlead m) fun hm => List.mem_singleton.mp hm ▸ hwaits
      rw [List.append_assoc, List.singleton_append] at h
      rw [if_pos hfold]
      exact ⟨pieces, h⟩
    · obtain ⟨pieces, h⟩ := ih [] (by simp)
      have hgroup := h.cons (.group ⟨lead, n, false⟩)
        (FitsGroup.led hlead (by simpa using hskip) (by simpa using hfold)) (by simp [Group.lone])
      rw [Piece.nodes, Group.nodes, List.append_assoc] at hgroup
      rw [if_neg hfold]
      exact ⟨_, hgroup⟩

/-- A place among the children lies in one of the pieces. -/
lemma exists_piece_at {pieces : List Piece} {before after : List Node} {n : Node}
    (h : pieces.flatMap Piece.nodes = before ++ n :: after) :
    ∃ ps p qs front back, pieces = ps ++ p :: qs ∧ p.nodes = front ++ n :: back ∧
      before = ps.flatMap Piece.nodes ++ front ∧ after = back ++ qs.flatMap Piece.nodes := by
  induction pieces generalizing before with
  | nil => simp at h
  | cons p pieces ih =>
    rw [List.flatMap_cons, List.append_eq_append_iff] at h
    rcases h with ⟨front, hbefore, hrest⟩ | ⟨front, hnodes, hrest⟩
    · obtain ⟨ps, q, qs, inner, back, rfl, hq, rfl, rfl⟩ := ih hrest
      exact ⟨p :: ps, q, qs, inner, back, rfl, hq, by simp [hbefore], rfl⟩
    · cases front with
      | nil =>
        have hnext : pieces.flatMap Piece.nodes = [] ++ n :: after := hrest.symm
        obtain ⟨ps, q, qs, inner, back, rfl, hq, hinner, rfl⟩ := ih hnext
        exact ⟨p :: ps, q, qs, inner, back, rfl, hq, by simp [hnodes, ← hinner], rfl⟩
      | cons m back =>
        obtain ⟨rfl, rfl⟩ := List.cons.inj hrest
        exact ⟨[], p, pieces, before, back, rfl, hnodes, rfl, rfl⟩

lemma eq_of_singleton {α : Type} {m n : α} {front back : List α} (h : [m] = front ++ n :: back) :
    front = [] ∧ m = n ∧ back = [] := by
  cases front <;> simp_all

lemma Ordered.endsRun {ps qs : List Piece} {n : Node}
    (h : t.Ordered (ps ++ .group (.lone n) :: qs)) : t.EndsRun (qs.flatMap Piece.nodes) := by
  induction ps with
  | nil => exact h.1 n rfl
  | cons p ps ih => exact ih h.2

/-- A waiting node stands alone exactly where its run ends. -/
theorem Pieces.alone_iff {before after : List Node} {n : Node} {groups : List Group}
    {pieces : List Piece} (h : Pieces t (before ++ n :: after) groups pieces)
    (hn : t.waits n = true) :
    (∃ ps qs, pieces = ps ++ .group (.lone n) :: qs ∧ ps.flatMap Piece.nodes = before) ↔
      t.EndsRun after := by
  constructor
  · rintro ⟨ps, qs, rfl, rfl⟩
    have hafter : qs.flatMap Piece.nodes = after := by
      simpa [Piece.nodes] using h.nodes
    exact hafter ▸ h.ordered.endsRun
  · intro hend
    obtain ⟨ps, p, qs, front, back, rfl, hp, rfl, rfl⟩ := exists_piece_at h.nodes
    have hfits := h.fits p (by simp)
    cases p with
    | skipped m =>
      obtain ⟨-, rfl, -⟩ := eq_of_singleton hp
      have hskip : t.skips m.kind = true := hfits
      simp [waits, hskip] at hn
    | group g =>
      cases hfits with
      | lone hwaits =>
        obtain ⟨rfl, rfl, rfl⟩ := eq_of_singleton hp
        exact ⟨ps, qs, rfl, by simp⟩
      | @led lead m hlead hskip hfold =>
        -- a run that a group ends does not end at a node that is left out
        have hm : t.waits m = false := by simp [waits, hfold]
        rcases List.append_eq_append_iff.mp hp with ⟨rest, -, hrest⟩ | ⟨rest, rfl, hrest⟩
        · obtain ⟨-, rfl, -⟩ := eq_of_singleton hrest
          rw [hm] at hn
          cases hn
        · cases rest with
          | nil =>
            obtain ⟨rfl, -⟩ := List.cons.inj hrest
            rw [hm] at hn
            cases hn
          | cons _ rest =>
            obtain ⟨rfl, hback⟩ := List.cons.inj hrest
            have hrun : ∀ k ∈ rest, t.waits k = true := fun k hk => hlead k (by simp [hk])
            rw [show back = rest ++ [m] from hback, List.append_assoc, endsRun_of_waits hrun,
              List.singleton_append, endsRun_cons_iff hm, hskip] at hend
            cases hend

/-- Every node that is not left out lies in a group, once and in its place. -/
lemma Pieces.flatMap_groups {ns : List Node} {groups : List Group} {pieces : List Piece}
    (h : Pieces t ns groups pieces) :
    groups.flatMap Group.nodes = ns.filter fun n => !t.skips n.kind := by
  obtain ⟨rfl, rfl, hfits, -⟩ := h
  induction pieces with
  | nil => rfl
  | cons p pieces ih =>
    rw [List.forall_mem_cons] at hfits
    rw [List.flatMap_cons, List.filter_append, ← ih hfits.2, List.filterMap_cons]
    cases p with
    | skipped n =>
      have hskip : t.skips n.kind = true := hfits.1
      simp [Piece.group?, Piece.nodes, hskip]
    | group g =>
      have hkept : ∀ n ∈ g.nodes, (!t.skips n.kind) = true := fun n hn => by
        simp [FitsGroup.not_skips hfits.1 hn]
      simp [Piece.group?, Piece.nodes, List.filter_eq_self.mpr hkept]

end Table

namespace Extraction

variable (x : Extraction)

/-- A chunk reaches from the start of the first node of its group to the end of the last. -/
structure Spans (g : Group) (c : Chunk) (first last : Node) : Prop where
  head : g.nodes.head? = some first
  getLast : g.nodes.getLast? = some last
  source : c.source = String.ofList (Text.slice x.source first.start last.stop)
  start : c.start = Text.positionAt x.source first.start
  stop : c.stop = Text.positionAt x.source last.stop

/-- The named children of every level fall into groups and nodes that are left out, and the
chunks of a tree are those of the groups of its levels, one for each, in order, and those
of the level inside a group directly behind it. -/
theorem chunks_cover_levels (root : Node) :
    (∀ scope : Node, ∃ pieces : List Piece,
      pieces.flatMap Piece.nodes = scope.namedChildren ∧
      pieces.filterMap Piece.group? = x.table.level scope ∧
      (∀ p ∈ pieces, x.table.FitsPiece p) ∧
      ((x.table.level scope).flatMap Group.nodes =
        scope.namedChildren.filter fun n => !x.table.skips n.kind) ∧
      ∀ before n after, scope.namedChildren = before ++ n :: after → x.table.waits n = true →
        ((∃ ps qs, pieces = ps ++ .group (.lone n) :: qs ∧ ps.flatMap Piece.nodes = before) ↔
          x.table.EndsRun after)) ∧
    ∃ visits, x.Visits "" (x.table.level root) visits ∧
      x.chunks root = visits.map x.chunkOfVisit ∧
      ∀ v ∈ visits, ∃ first last, x.Spans v.group (x.chunkOfVisit v) first last := by
  constructor
  · intro scope
    obtain ⟨pieces, h⟩ := Table.exists_pieces (t := x.table) [] scope.namedChildren (by simp)
    rw [List.nil_append] at h
    refine ⟨pieces, h.nodes, h.groups, h.fits, h.flatMap_groups, fun before n after heq hn => ?_⟩
    rw [heq] at h
    exact h.alone_iff hn
  · obtain ⟨visits, hvisits, -, hchunks⟩ := x.exists_visits root
    refine ⟨visits, hvisits, hchunks, fun v _ => ⟨v.group.first, v.group.node, ?_⟩⟩
    exact ⟨v.group.head?_nodes, v.group.getLast?_nodes, rfl, rfl, rfl⟩

end Extraction

end CodeSearch
