import CodeSearch.Text.Span
import Mathlib.Algebra.GroupWithZero.Nat
import Mathlib.Data.List.Basic
import Mathlib.Data.List.Induction
import Mathlib.Order.Basic

/-!
# Places in a text

The place of an offset tells how many lines end in front of it and how many bytes of its own
line do. So places are in order as their offsets are, and an offset between two characters can
be found again from its place.
-/
namespace CodeSearch

namespace Position

/-- Places go by their lines and, in a line, by their columns. -/
instance : LE Position :=
  ⟨fun p q => p.line < q.line ∨ p.line = q.line ∧ p.column ≤ q.column⟩

variable {p q r : Position}

lemma le_iff : p ≤ q ↔ p.line < q.line ∨ p.line = q.line ∧ p.column ≤ q.column :=
  Iff.rfl

instance : Preorder Position where
  le_refl p := le_iff.mpr (.inr ⟨rfl, Nat.le_refl _⟩)
  le_trans p q r hpq hqr := by
    rw [le_iff] at hpq hqr ⊢
    omega

lemma le_of_line_lt (h : p.line < q.line) : p ≤ q :=
  le_iff.mpr (.inl h)

lemma le_of_column_le (hline : p.line = q.line) (h : p.column ≤ q.column) : p ≤ q :=
  le_iff.mpr (.inr ⟨hline, h⟩)

end Position

namespace Text

/-- The number of bytes of some characters. -/
def size (cs : List Char) : ℕ :=
  (cs.map Char.utf8Size).sum

@[simp] lemma size_nil : size [] = 0 := rfl

@[simp] lemma size_cons (c : Char) (cs : List Char) : size (c :: cs) = c.utf8Size + size cs := rfl

@[simp] lemma size_append (cs ds : List Char) : size (cs ++ ds) = size cs + size ds := by
  simp [size]

section Order

lemma le_advance (p : Position) (n : ℕ) (cs : List Char) : p ≤ advance p n cs := by
  induction cs generalizing p n with
  | nil => cases n <;> exact le_rfl
  | cons c cs ih =>
    cases n with
    | zero => exact le_rfl
    | succ n =>
      rw [advance]
      split
      · exact Position.le_of_column_le rfl (Nat.le_add_right _ _)
      · split
        · refine le_trans (Position.le_of_line_lt ?_) (ih _ _)
          exact Nat.lt_succ_self _
        · refine le_trans (Position.le_of_column_le ?_ ?_) (ih _ _)
          · rfl
          · exact Nat.le_add_right _ _

lemma advance_mono (p : Position) {n m : ℕ} (hnm : n ≤ m) (cs : List Char) :
    advance p n cs ≤ advance p m cs := by
  induction cs generalizing p n m with
  | nil => cases n <;> cases m <;> exact le_rfl
  | cons c cs ih =>
    cases n with
    | zero => exact le_advance p m (c :: cs)
    | succ n =>
      obtain ⟨m, rfl⟩ : ∃ k, m = k + 1 := ⟨m - 1, by omega⟩
      rw [advance, advance]
      by_cases hm : m + 1 < c.utf8Size
      · rw [if_pos hm, if_pos (by omega)]
        exact Position.le_of_column_le rfl (Nat.add_le_add_left hnm _)
      rw [if_neg hm]
      by_cases hn : n + 1 < c.utf8Size
      · -- a newline is a single byte, so no offset lies inside one
        have hc : c ≠ '\n' := by
          rintro rfl
          have hone : '\n'.utf8Size = 1 := rfl
          omega
        rw [if_pos hn, if_neg hc]
        refine le_trans (Position.le_of_column_le ?_ ?_) (le_advance _ _ cs)
        · rfl
        · dsimp only
          omega
      · rw [if_neg hn]
        split
        · exact ih _ (by omega)
        · exact ih _ (by omega)

/-- Later offsets have later places. -/
theorem positionAt_mono {n m : ℕ} (hnm : n ≤ m) (cs : List Char) :
    positionAt cs n ≤ positionAt cs m :=
  advance_mono _ hnm cs

end Order

/-- The offset falls between two characters of the text, or at one of its ends. -/
def IsBoundary (cs : List Char) (offset : ℕ) : Prop :=
  ∃ front back, cs = front ++ back ∧ offset = size front

section Slices

lemma dropBytes_cons {n : ℕ} (c : Char) (cs : List Char) (hn : 0 < n) : dropBytes n (c :: cs) =
    if c.utf8Size ≤ n then dropBytes (n - c.utf8Size) cs else none := by
  cases n with
  | zero => omega
  | succ n => rfl

lemma takeBytes_cons {n : ℕ} (c : Char) (cs : List Char) (hn : 0 < n) : takeBytes n (c :: cs) =
    if c.utf8Size ≤ n then (takeBytes (n - c.utf8Size) cs).map (c :: ·) else none := by
  cases n with
  | zero => omega
  | succ n => rfl

lemma dropBytes_append (front back : List Char) :
    dropBytes (size front) (front ++ back) = some back := by
  induction front with
  | nil => cases back <;> rfl
  | cons c front ih =>
    have hpos := c.utf8Size_pos
    rw [size_cons, List.cons_append, dropBytes_cons _ _ (by omega), if_pos (by omega),
      Nat.add_sub_cancel_left, ih]

/-- An offset is a boundary if that many bytes can be taken off the text. -/
lemma isBoundary_iff {cs : List Char} {n : ℕ} : IsBoundary cs n ↔ (dropBytes n cs).isSome := by
  constructor
  · rintro ⟨front, back, rfl, rfl⟩
    rw [dropBytes_append]
    rfl
  · intro h
    induction cs generalizing n with
    | nil =>
      cases n with
      | zero => exact ⟨[], [], rfl, rfl⟩
      | succ n => cases h
    | cons c cs ih =>
      rcases Nat.eq_zero_or_pos n with rfl | hpos
      · exact ⟨[], c :: cs, rfl, rfl⟩
      rw [dropBytes_cons _ _ hpos] at h
      split at h
      · next hsize =>
        obtain ⟨front, back, rfl, hn⟩ := ih h
        exact ⟨c :: front, back, rfl, by rw [size_cons]; omega⟩
      · cases h

instance (cs : List Char) (n : ℕ) : Decidable (IsBoundary cs n) :=
  decidable_of_iff _ isBoundary_iff.symm

lemma takeBytes_append (front back : List Char) :
    takeBytes (size front) (front ++ back) = some front := by
  induction front with
  | nil => cases back <;> rfl
  | cons c front ih =>
    have hpos := c.utf8Size_pos
    rw [size_cons, List.cons_append, takeBytes_cons _ _ (by omega), if_pos (by omega),
      Nat.add_sub_cancel_left, ih]
    rfl

/-- What stands between two boundaries is cut out. -/
lemma slice?_append (front middle back : List Char) :
    slice? (front ++ (middle ++ back)) (size front) (size (front ++ middle)) = some middle := by
  rw [slice?, size_append, if_pos (Nat.le_add_right _ _), dropBytes_append,
    Nat.add_sub_cancel_left]
  exact takeBytes_append middle back

/-- Of two boundaries in order, the earlier one lies in front of the later one. -/
lemma IsBoundary.exists_middle {cs : List Char} {n m : ℕ} (hn : IsBoundary cs n)
    (hm : IsBoundary cs m) (hnm : n ≤ m) : ∃ front middle back,
      cs = front ++ (middle ++ back) ∧ n = size front ∧ m = size (front ++ middle) := by
  obtain ⟨front, rest, rfl, rfl⟩ := hn
  obtain ⟨front', back, heq, rfl⟩ := hm
  rcases List.append_eq_append_iff.mp heq with ⟨middle, rfl, rfl⟩ | ⟨middle, rfl, rfl⟩
  · exact ⟨front, middle, back, rfl, rfl, rfl⟩
  · -- the other way round nothing can stand between them
    have hempty : middle = [] := by
      cases middle with
      | nil => rfl
      | cons c middle =>
        have hpos := c.utf8Size_pos
        simp only [size_append, size_cons] at hnm
        omega
    subst hempty
    exact ⟨front', [], rest, by simp, by simp, by simp⟩

end Slices

section Inverse

/-- The characters behind the last newline. -/
def lastLine (cs : List Char) : List Char :=
  (cs.reverse.takeWhile (· ≠ '\n')).reverse

/-- The place behind a text: one more than the newlines in it, and one more than the bytes
behind the last of them. -/
def endOf (cs : List Char) : Position :=
  ⟨1 + cs.count '\n', 1 + size (lastLine cs)⟩

/-- The place behind a character that stands at a place. -/
def pass (p : Position) (c : Char) : Position :=
  if c = '\n' then ⟨p.line + 1, 1⟩ else ⟨p.line, p.column + c.utf8Size⟩

lemma lastLine_concat (cs : List Char) (c : Char) :
    lastLine (cs ++ [c]) = if c = '\n' then [] else lastLine cs ++ [c] := by
  by_cases hc : c = '\n' <;> simp [lastLine, hc]

lemma endOf_concat (cs : List Char) (c : Char) : endOf (cs ++ [c]) = pass (endOf cs) c := by
  by_cases hc : c = '\n' <;> simp [endOf, pass, lastLine_concat, hc, Nat.add_assoc]

lemma advance_append (p : Position) (front back : List Char) :
    advance p (size front) (front ++ back) = front.foldl pass p := by
  induction front generalizing p with
  | nil => cases back <;> rfl
  | cons c front ih =>
    have hpos := c.utf8Size_pos
    obtain ⟨n, hn⟩ : ∃ n, c.utf8Size + size front = n + 1 :=
      ⟨c.utf8Size + size front - 1, by omega⟩
    have hrest : n + 1 - c.utf8Size = size front := by omega
    rw [size_cons, hn, List.cons_append, advance, if_neg (by omega), hrest, List.foldl_cons, ← ih,
      pass]
    split <;> rfl

theorem positionAt_append (front back : List Char) :
    positionAt (front ++ back) (size front) = endOf front := by
  rw [positionAt, advance_append]
  induction front using List.reverseRecOn with
  | nil => rfl
  | append_singleton front c ih => rw [List.foldl_append, ih, endOf_concat]; rfl

/-- The number of bytes of the first lines of a text, each with the newline behind it. -/
def lineStart : ℕ → List Char → ℕ
  | 0, _ => 0
  | _ + 1, [] => 0
  | n + 1, c :: cs => c.utf8Size + if c = '\n' then lineStart n cs else lineStart (n + 1) cs

/-- The offset of a place: the bytes of the lines in front of it and those in front of it in
its own line. -/
def offsetAt (cs : List Char) (p : Position) : ℕ :=
  lineStart (p.line - 1) cs + (p.column - 1)

lemma lineStart_newline (cs ds : List Char) :
    lineStart (cs.count '\n' + 1) (cs ++ '\n' :: ds) = size cs + '\n'.utf8Size := by
  induction cs with
  | nil => simp [lineStart]
  | cons c cs ih =>
    by_cases hc : c = '\n'
    · simp [lineStart, hc, ih, Nat.add_assoc]
    · simp [lineStart, hc, ih, Nat.add_assoc]

lemma lineStart_append (cs ds : List Char) :
    lineStart (cs.count '\n') (cs ++ ds) + size (lastLine cs) = size cs := by
  induction cs using List.reverseRecOn generalizing ds with
  | nil => simp [lineStart, lastLine]
  | append_singleton cs c ih =>
    rw [lastLine_concat, List.append_assoc, List.singleton_append]
    by_cases hc : c = '\n'
    · simp [hc, lineStart_newline]
    · have hline := ih (c :: ds)
      simp [hc, List.count_append, ← hline, Nat.add_assoc]

/-- A boundary is found again from its place. -/
theorem offsetAt_endOf (front back : List Char) :
    offsetAt (front ++ back) (endOf front) = size front := by
  simp only [offsetAt, endOf, Nat.add_sub_cancel_left]
  exact lineStart_append front back

end Inverse

end Text

end CodeSearch
