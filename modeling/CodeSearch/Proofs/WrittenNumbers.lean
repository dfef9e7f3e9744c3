import CodeSearch.Json.Reader
import CodeSearch.Json.Writer
import CodeSearch.Proofs.Rounding
import Mathlib.Data.List.TakeWhile

/-!
# Written numbers read back

A written number has digits, perhaps a point with digits behind it, and perhaps an
exponent. The reader takes such a text apart again, up to whatever follows, and the
layouts of the writer all spell the value that they were given.
-/
namespace CodeSearch.Json

open Reader Writer

/-- A text that does not go on with a number that stands before it. -/
def EndsNumber (rest : List Char) : Prop :=
  ∀ c, rest.head? = some c → c.isDigit = false ∧ c ≠ '.' ∧ c ≠ 'e' ∧ c ≠ 'E'

@[simp] lemma endsNumber_nil : EndsNumber [] := by
  intro c hc
  simp at hc

lemma digits_append {ds rest : List Char} (hds : ∀ c ∈ ds, c.isDigit = true)
    (hrest : ∀ c, rest.head? = some c → c.isDigit = false) : digits (ds ++ rest) = (ds, rest) := by
  have hstop : rest.takeWhile Char.isDigit = [] ∧ rest.dropWhile Char.isDigit = rest := by
    cases rest with
    | nil => simp
    | cons c rest => simp [hrest c rfl]
  simp [digits, List.takeWhile_append_of_pos hds, List.dropWhile_append_of_pos hds, hstop]

lemma natOf_append (a b : List Char) : natOf (a ++ b) = 10 ^ b.length * natOf a + natOf b := by
  change Nat.ofDigitChars 10 (a ++ b) 0 = _
  rw [Nat.ofDigitChars_append, Nat.ofDigitChars_eq_ofDigitChars_zero]
  rfl

@[simp] lemma natOf_zeros (k : ℕ) : natOf (List.replicate k '0') = 0 := by
  change Nat.ofDigitChars 10 (List.replicate k '0') 0 = 0
  rw [Nat.ofDigitChars_replicate_zero, Nat.mul_zero]

@[simp] lemma natOf_ofNat (n : ℕ) : natOf (ofNat n) = n :=
  Nat.ofDigitChars_ten_toDigits

lemma isDigit_of_mem_ofNat {n : ℕ} {c : Char} (hc : c ∈ ofNat n) : c.isDigit = true :=
  Nat.isDigit_of_mem_toDigits (by norm_num) (by norm_num) hc

/-- A positive number has no zero in front. -/
lemma head_ofNat_ne_zero {n : ℕ} (hn : 0 < n) : (ofNat n).head? ≠ some '0' := by
  unfold ofNat
  induction n using Nat.strong_induction_on with
  | _ n ih =>
    rw [Nat.toDigits_eq_if (by norm_num)]
    split
    · simpa using hn.ne'
    · have hdiv : 0 < n / 10 := by omega
      rw [List.head?_append_of_ne_nil _ Nat.toDigits_ne_nil]
      exact ih (n / 10) (by omega) hdiv

structure Numeral where
  negative : Bool
  whole : List Char
  behind : List Char
  power : Option ℤ

namespace Numeral

/-- The sign and the digits of an exponent. -/
def powerText (p : ℤ) : List Char :=
  (if p < 0 then ['-'] else []) ++ ofNat p.natAbs

def text (n : Numeral) : List Char :=
  (if n.negative then ['-'] else []) ++ n.whole ++
    (if n.behind = [] then [] else '.' :: n.behind) ++
    (n.power.elim [] fun p => 'e' :: powerText p)

/-- The number that a numeral spells. -/
def decimal (n : Numeral) : Decimal :=
  ⟨n.negative, natOf (n.whole ++ n.behind), n.power.getD 0 - n.behind.length⟩

/-- Digits where digits belong, at least one of them, and no zero in front of others. -/
structure WellFormed (n : Numeral) : Prop where
  whole_digits : ∀ c ∈ n.whole, c.isDigit = true
  behind_digits : ∀ c ∈ n.behind, c.isDigit = true
  whole_ne_nil : n.whole ≠ []
  no_zero : 1 < n.whole.length → n.whole.head? ≠ some '0'

lemma fraction?_append {behind rest : List Char} (hb : ∀ c ∈ behind, c.isDigit = true)
    (hrest : ∀ c, rest.head? = some c → c.isDigit = false ∧ c ≠ '.') :
    fraction? ((if behind = [] then [] else '.' :: behind) ++ rest) = some (behind, rest) := by
  by_cases hnil : behind = []
  · subst hnil
    cases rest with
    | nil => rfl
    | cons c rest =>
      have hc := (hrest c rfl).2
      simp only [↓reduceIte, List.nil_append]
      unfold fraction?
      split
      · next heq => exact absurd (List.cons.inj heq).1 hc
      · rfl
  · simp [hnil, fraction?, digits_append hb fun c hc => (hrest c hc).1]

lemma exponent?_append (power : Option ℤ) {rest : List Char} (hrest : EndsNumber rest) :
    exponent? (power.elim [] (fun p => 'e' :: powerText p) ++ rest) =
      some (power.getD 0, rest) := by
  cases power with
  | none =>
    cases rest with
    | nil => rfl
    | cons c rest =>
      obtain ⟨-, -, he, hE⟩ := hrest c rfl
      simp [exponent?, he, hE]
  | some p =>
    have hread : digits (ofNat p.natAbs ++ rest) = (ofNat p.natAbs, rest) :=
      digits_append (fun c hc => isDigit_of_mem_ofNat hc) fun c hc => (hrest c hc).1
    have hne : ofNat p.natAbs ≠ [] := Nat.toDigits_ne_nil
    by_cases hp : p < 0
    · have habs : -((natOf (ofNat p.natAbs) : ℕ) : ℤ) = p := by rw [natOf_ofNat]; omega
      simp only [Option.elim_some, List.cons_append, powerText, hp, ↓reduceIte, exponent?]
      simp [hread, hne, -natOf_ofNat, habs]
    · -- the first digit is not taken for a sign
      obtain ⟨c, cs, hcs⟩ := List.exists_cons_of_ne_nil hne
      have hc : c.isDigit = true := isDigit_of_mem_ofNat (hcs ▸ List.mem_cons_self)
      have hminus : c ≠ '-' := by rintro rfl; exact absurd hc (by decide)
      have hplus : c ≠ '+' := by rintro rfl; exact absurd hc (by decide)
      have habs : ((natOf (ofNat p.natAbs) : ℕ) : ℤ) = p := by rw [natOf_ofNat]; omega
      rw [hcs] at hread habs
      rw [List.cons_append] at hread
      simp [exponent?, powerText, hp, hcs, hread, hminus, hplus, habs]

/-- What follows the digits in front of the point does not go on with them. -/
lemma head_tail_text {n : Numeral} {rest : List Char} (hrest : EndsNumber rest) (c : Char)
    (hc : (n.power.elim [] (fun p => 'e' :: powerText p) ++ rest).head? = some c) :
    c.isDigit = false ∧ c ≠ '.' := by
  cases hpower : n.power with
  | none =>
    rw [hpower] at hc
    obtain ⟨hd, hdot, -, -⟩ := hrest c hc
    exact ⟨hd, hdot⟩
  | some p =>
    have he : 'e' = c := by simpa [hpower] using hc
    subst he
    decide

/-- A numeral has digits, signs, a point and the letter of an exponent, and nothing else. -/
lemma mem_text {n : Numeral} (hn : n.WellFormed) {c : Char} (hc : c ∈ n.text) :
    c.isDigit = true ∨ c = '-' ∨ c = '.' ∨ c = 'e' := by
  simp only [text, List.mem_append] at hc
  rcases hc with ((hc | hc) | hc) | hc
  · have : c = '-' := by split at hc <;> simp_all
    exact .inr (.inl this)
  · exact .inl (hn.whole_digits c hc)
  · split at hc
    · simp at hc
    · rcases List.mem_cons.mp hc with rfl | hc
      · simp
      · exact .inl (hn.behind_digits c hc)
  · cases hpower : n.power with
    | none => simp [hpower] at hc
    | some p =>
      rw [hpower, Option.elim_some, powerText, List.mem_cons, List.mem_append] at hc
      rcases hc with rfl | hc | hc
      · simp
      · have : c = '-' := by split at hc <;> simp_all
        exact .inr (.inl this)
      · exact .inl (isDigit_of_mem_ofNat hc)

/-- The reader takes a well-formed numeral apart, up to what follows it. -/
theorem number?_text {n : Numeral} (hn : n.WellFormed) (hfits : n.decimal.fitsDouble)
    {rest : List Char} (hrest : EndsNumber rest) :
    number? (n.text ++ rest) = some (n.decimal, rest) := by
  obtain ⟨hwhole, hbehind, hne, hzero⟩ := hn
  have hlast := head_tail_text (n := n) hrest
  set tail := n.power.elim [] (fun p => 'e' :: powerText p) ++ rest with htail
  set middle := (if n.behind = [] then [] else '.' :: n.behind) ++ tail with hmiddle
  have hmid : ∀ c, middle.head? = some c → c.isDigit = false := by
    intro c hc
    by_cases hb : n.behind = []
    · simp only [hmiddle, hb, ↓reduceIte, List.nil_append] at hc
      exact (hlast c hc).1
    · have hdot : '.' = c := by simpa [hmiddle, hb] using hc
      subst hdot
      decide
  obtain ⟨c, cs, hcs⟩ := List.exists_cons_of_ne_nil hne
  have hc : c ≠ '-' := by
    rintro rfl
    exact absurd (hwhole '-' (hcs ▸ List.mem_cons_self)) (by decide)
  have hsign : decide ((n.text ++ rest).head? = some '-') = n.negative := by
    cases hneg : n.negative <;> simp [text, hneg, hcs, hc]
  have hbody : (if (n.text ++ rest).head? = some '-' then (n.text ++ rest).tail
      else n.text ++ rest) = n.whole ++ middle := by
    cases hneg : n.negative <;> simp [text, hneg, hcs, hc, hmiddle, htail]
  have hgood : (n.whole.isEmpty || (decide (1 < n.whole.length) &&
      decide (n.whole.head? = some '0'))) = false := by
    have h₁ : n.whole.isEmpty = false := by simpa using hne
    rw [h₁, Bool.false_or, Bool.and_eq_false_imp]
    intro hlen
    exact decide_eq_false (hzero (of_decide_eq_true hlen))
  have hfraction : fraction? middle = some (n.behind, tail) := fraction?_append hbehind hlast
  have hexponent : exponent? tail = some (n.power.getD 0, rest) := exponent?_append n.power hrest
  unfold number?
  simp only [hsign, hbody, digits_append hwhole hmid, hgood, hfraction, hexponent,
    Bool.false_eq_true, ↓reduceIte, Option.bind_eq_bind, Option.bind_some]
  exact if_pos hfits

end Numeral

/-- The zeros at the end of some digits are all that taking them off takes away. -/
lemma eq_append_zeros (ds : List Char) :
    ds = (ds.reverse.dropWhile (· == '0')).reverse ++
      List.replicate (ds.length - (ds.reverse.dropWhile (· == '0')).length) '0' := by
  have hsplit : ds.reverse.takeWhile (· == '0') ++ ds.reverse.dropWhile (· == '0') = ds.reverse :=
    List.takeWhile_append_dropWhile
  have hzeros : ∀ c ∈ ds.reverse.takeWhile (· == '0'), c = '0' := by
    intro c hc
    simpa using List.mem_takeWhile_imp hc
  have hlen : (ds.reverse.takeWhile (· == '0')).length =
      ds.length - (ds.reverse.dropWhile (· == '0')).length := by
    have := congrArg List.length hsplit
    simp only [List.length_append, List.length_reverse] at this
    omega
  rw [← hlen]
  conv_lhs => rw [← ds.reverse_reverse, ← hsplit, List.reverse_append]
  rw [List.eq_replicate_of_mem hzeros]
  simp

/-- The digits and the place that a number is laid out with keep its value, and a zero
stands in front of the number zero only. -/
structure IsPlain (d : Decimal) (ds : List Char) (exponent : ℤ) : Prop where
  isDigit : ∀ c ∈ ds, c.isDigit = true
  ne_nil : ds ≠ []
  value_eq : (natOf ds : ℚ) * 10 ^ exponent = d.value
  zero : ds.head? = some '0' → ds = ['0'] ∧ exponent = 0

/-- A number that is not zero is laid out without the zeros at its end. -/
lemma exists_plainDigits {d : Decimal} (h₀ : d.digits ≠ 0) :
    ∃ kept k, plainDigits d = (kept, d.exponent + (k : ℕ)) ∧
      ofNat d.digits = kept ++ List.replicate k '0' := by
  set ds := ofNat d.digits with hds
  set kept := (ds.reverse.dropWhile (· == '0')).reverse with hkept
  have hkeptLength : (ds.reverse.dropWhile (· == '0')).length = kept.length := by
    rw [hkept, List.length_reverse]
  have hsplit := eq_append_zeros ds
  rw [← hkept, hkeptLength] at hsplit
  set k := ds.length - kept.length with hk
  have hlen : ds.length - k = kept.length := by
    have := congrArg List.length hsplit
    simp only [List.length_append, List.length_replicate] at this
    omega
  have htake : ds.take (ds.length - k) = kept := by
    rw [hlen]
    conv_lhs => rw [hsplit]
    exact List.take_left
  refine ⟨kept, k, ?_, hsplit⟩
  simp only [plainDigits, h₀, ↓reduceIte, ← hds]
  rw [hkeptLength, ← hk, htake]

lemma isPlain_plainDigits (d : Decimal) : IsPlain d (plainDigits d).1 (plainDigits d).2 := by
  by_cases h₀ : d.digits = 0
  · have hplain : plainDigits d = (['0'], 0) := by simp [plainDigits, h₀]
    rw [hplain]
    refine ⟨by simp, by simp, ?_, fun _ => ⟨rfl, rfl⟩⟩
    rw [Decimal.value_eq_zero_iff.mpr h₀]
    simp [natOf]
  · obtain ⟨kept, k, hplain, hsplit⟩ := exists_plainDigits h₀
    have hvalue : natOf kept * 10 ^ k = d.digits := by
      have hdigits := natOf_ofNat d.digits
      rw [hsplit, natOf_append, natOf_zeros, List.length_replicate] at hdigits
      rw [← hdigits]
      ring
    have hne : kept ≠ [] := by
      intro hnil
      rw [hnil] at hvalue
      exact h₀ (by simpa [natOf] using hvalue.symm)
    rw [hplain]
    refine ⟨fun c hc => ?_, hne, ?_, fun hhead => ?_⟩
    · exact isDigit_of_mem_ofNat (n := d.digits) (hsplit ▸ List.mem_append_left _ hc)
    · unfold Decimal.value
      rw [← hvalue, zpow_add₀ (by norm_num), zpow_natCast]
      push_cast
      ring
    · -- the digits that are kept start as all of them do, which is not with a zero
      have hhead' : (ofNat d.digits).head? = some '0' := by
        rw [hsplit, List.head?_append_of_ne_nil _ hne, hhead]
      exact absurd hhead' (head_ofNat_ne_zero (Nat.pos_of_ne_zero h₀))

namespace Numeral

/-- A numeral spells a number: its text is the number as written and its value is kept. -/
structure Spells (n : Numeral) (d : Decimal) : Prop where
  wellFormed : n.WellFormed
  text_eq : n.text = ofDecimal d
  negative_eq : n.decimal.negative = d.negative
  value_eq : n.decimal.value = d.value

/-- Digits with a point behind them: a whole number. -/
lemma spells_whole {d : Decimal} {ds : List Char} {k : ℕ} (h : IsPlain d ds k)
    (htext : ofDecimal d = (if d.negative then ['-'] else []) ++
      (ds ++ List.replicate k '0' ++ ['.', '0'])) :
    Spells ⟨d.negative, ds ++ List.replicate k '0', ['0'], none⟩ d := by
  obtain ⟨hdigits, hne, hvalue, hzero⟩ := h
  refine ⟨⟨?_, by simp, by simp [hne], ?_⟩, ?_, rfl, ?_⟩
  · intro c hc
    rcases List.mem_append.mp hc with hc | hc
    · exact hdigits c hc
    · rw [List.eq_of_mem_replicate hc]
      decide
  · intro hlen hhead
    rw [List.head?_append_of_ne_nil _ hne] at hhead
    obtain ⟨rfl, hk⟩ := hzero hhead
    have hk' : k = 0 := by omega
    subst hk'
    simp at hlen
  · simp [text, htext]
  · rw [← hvalue]
    simp only [decimal, Decimal.value, natOf_append, natOf_zeros, List.length_replicate]
    have hone : natOf ['0'] = 0 := rfl
    rw [hone]
    push_cast
    simp only [List.length_singleton, Option.getD_none, Nat.cast_one, add_zero, zpow_natCast]
    norm_num
    ring

lemma spells_point {d : Decimal} {ds : List Char} {exponent : ℤ} {place : ℕ}
    (h : IsPlain d ds exponent) (hpos : 0 < place) (hlt : place < ds.length)
    (hplace : (place : ℤ) = ds.length + exponent)
    (htext : ofDecimal d = (if d.negative then ['-'] else []) ++
      (ds.take place ++ '.' :: ds.drop place)) :
    Spells ⟨d.negative, ds.take place, ds.drop place, none⟩ d := by
  obtain ⟨hdigits, hne, hvalue, hzero⟩ := h
  have hbehind : ds.drop place ≠ [] := by simpa using hlt
  refine ⟨⟨fun c hc => hdigits c (List.mem_of_mem_take hc),
    fun c hc => hdigits c (List.mem_of_mem_drop hc), ?_, ?_⟩, ?_, rfl, ?_⟩
  · simp [hne, hpos.ne']
  · intro hlen hhead
    rw [List.head?_take, if_neg hpos.ne'] at hhead
    obtain ⟨rfl, -⟩ := hzero hhead
    simp at hlt
    omega
  · simp [text, htext, hbehind]
  · rw [← hvalue]
    have hexp : (0 : ℤ) - ((ds.drop place).length : ℕ) = exponent := by
      rw [List.length_drop]
      omega
    simp only [decimal, Decimal.value, List.take_append_drop, Option.getD_none, hexp]

/-- A point with zeros behind it, and then the digits. -/
lemma spells_fraction {d : Decimal} {ds : List Char} {exponent : ℤ} {k : ℕ}
    (h : IsPlain d ds exponent) (hk : exponent = -(ds.length + k))
    (htext : ofDecimal d = (if d.negative then ['-'] else []) ++
      ('0' :: '.' :: (List.replicate k '0' ++ ds))) :
    Spells ⟨d.negative, ['0'], List.replicate k '0' ++ ds, none⟩ d := by
  obtain ⟨hdigits, hne, hvalue, -⟩ := h
  refine ⟨⟨by simp, ?_, by simp, by simp⟩, ?_, rfl, ?_⟩
  · intro c hc
    rcases List.mem_append.mp hc with hc | hc
    · rw [List.eq_of_mem_replicate hc]
      decide
    · exact hdigits c hc
  · simp [text, htext, hne]
  · rw [← hvalue]
    have hdigits' : natOf (['0'] ++ (List.replicate k '0' ++ ds)) = natOf ds := by
      rw [natOf_append, natOf_append, natOf_zeros]
      simp [natOf]
    have hexp : (0 : ℤ) - ((List.replicate k '0' ++ ds).length : ℕ) = exponent := by
      rw [List.length_append, List.length_replicate]
      omega
    simp only [decimal, Decimal.value, hdigits', Option.getD_none, hexp]

/-- One digit in front of the point, and an exponent. -/
lemma spells_power {d : Decimal} {ds : List Char} {exponent : ℤ} (h : IsPlain d ds exponent)
    (htext : ofDecimal d = (if d.negative then ['-'] else []) ++
      ((ds.take 1 ++ (if ds.length = 1 then [] else '.' :: ds.drop 1)) ++
        'e' :: powerText (ds.length + exponent - 1))) :
    Spells ⟨d.negative, ds.take 1, ds.drop 1, some (ds.length + exponent - 1)⟩ d := by
  obtain ⟨hdigits, hne, hvalue, -⟩ := h
  have hlen : 0 < ds.length := List.length_pos_iff.mpr hne
  have hnil : ds.drop 1 = [] ↔ ds.length = 1 := by
    rw [List.drop_eq_nil_iff]
    omega
  refine ⟨⟨fun c hc => hdigits c (List.mem_of_mem_take hc),
    fun c hc => hdigits c (List.mem_of_mem_drop hc), by simp [hne], ?_⟩, ?_, rfl, ?_⟩
  · intro hlong
    simp only [List.length_take] at hlong
    omega
  · simp only [text, htext, hnil, Option.elim_some, List.append_assoc]
  · rw [← hvalue]
    have hexp : (ds.length + exponent - 1 : ℤ) - ((ds.drop 1).length : ℕ) = exponent := by
      rw [List.length_drop]
      omega
    simp only [decimal, Decimal.value, List.take_append_drop, Option.getD_some, hexp]

/-- The layout of some digits with their place. -/
def layout (ds : List Char) (exponent : ℤ) : List Char :=
  let place : ℤ := ds.length + exponent
  if 0 ≤ exponent && place ≤ 13 then ds ++ List.replicate exponent.toNat '0' ++ ['.', '0']
  else if 0 < place && place ≤ 13 then ds.take place.toNat ++ '.' :: ds.drop place.toNat
  else if -5 ≤ place && place ≤ 0 then '0' :: '.' :: (List.replicate (-place).toNat '0' ++ ds)
  else (ds.take 1 ++ (if ds.length = 1 then [] else '.' :: ds.drop 1)) ++
    'e' :: powerText (place - 1)

lemma ofDecimal_eq_layout (d : Decimal) :
    ofDecimal d =
      (if d.negative then ['-'] else []) ++ layout (plainDigits d).1 (plainDigits d).2 := by
  cases hneg : d.negative <;> simp only [ofDecimal, hneg] <;> rfl

/-- Every number is written as a well-formed numeral that keeps its value. -/
theorem exists_spells (d : Decimal) : ∃ n : Numeral, n.Spells d := by
  have hplain := isPlain_plainDigits d
  have htext := ofDecimal_eq_layout d
  set ds := (plainDigits d).1
  set exponent := (plainDigits d).2
  set sign : List Char := if d.negative then ['-'] else []
  have hlen : 0 < ds.length := List.length_pos_iff.mpr hplain.ne_nil
  unfold layout at htext
  dsimp only at htext
  split at htext
  · next hwhole =>
    simp only [Bool.and_eq_true, decide_eq_true_eq] at hwhole
    obtain ⟨k, hk⟩ := Int.eq_ofNat_of_zero_le hwhole.1
    rw [hk, Int.toNat_natCast] at htext
    exact ⟨_, spells_whole (hk ▸ hplain) htext⟩
  split at htext
  · next hwhole hpoint =>
    simp only [Bool.and_eq_true, decide_eq_true_eq] at hwhole hpoint
    exact ⟨_, spells_point hplain (by omega) (by omega) (by omega) htext⟩
  split at htext
  · next hfraction =>
    simp only [Bool.and_eq_true, decide_eq_true_eq] at hfraction
    exact ⟨_, spells_fraction hplain (by omega) htext⟩
  · exact ⟨_, spells_power hplain htext⟩

end Numeral

/-- A finite single is written so that reading gives a number that is nearest to it. -/
theorem exists_number?_ofSingle {x : Single} (hx : x.isFinite) :
    ∃ d : Decimal, d.toSingle = x ∧
      ∀ rest, EndsNumber rest → number? (ofSingle x ++ rest) = some (d, rest) := by
  obtain ⟨n, hn⟩ := Numeral.exists_spells (.shortest x)
  have hsingle : n.decimal.toSingle = x := by
    rw [Decimal.toSingle_congr hn.negative_eq hn.value_eq, Decimal.toSingle_shortest hx]
  refine ⟨n.decimal, hsingle, fun rest hrest => ?_⟩
  have htext : ofSingle x = n.text := by rw [ofSingle, if_pos hx, hn.text_eq]
  rw [htext]
  exact Numeral.number?_text hn.wellFormed (Decimal.fitsDouble_of_isFinite (hsingle ▸ hx)) hrest

lemma newline_not_mem_ofSingle (x : Single) : '\n' ∉ ofSingle x := by
  unfold ofSingle
  split
  · obtain ⟨n, hn⟩ := Numeral.exists_spells (.shortest x)
    rw [← hn.text_eq]
    intro hmem
    exact absurd (Numeral.mem_text hn.wellFormed hmem) (by decide)
  · decide

end CodeSearch.Json
