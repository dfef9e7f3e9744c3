import CodeSearch.Proofs.WrittenNumbers

/-!
# Written JSON read back

Strings, arrays and objects are read back from what the writer made of them, whatever
follows. The reader's fuel suffices if there is as much of it as there is text.
-/
namespace CodeSearch.Json

open Reader Writer

lemma hexValue?_hexDigit : ∀ n < 16, hexValue? (hexDigit n) = some n := by
  decide

/-- A control character is read back from its escape. -/
lemma unicode?_control {c : Char} (hc : c.toNat < 0x20) (cs : List Char) :
    unicode? ('0' :: '0' :: hexDigit (c.toNat / 16) :: hexDigit (c.toNat % 16) :: cs) =
      some (c, cs) := by
  have hword : hexWord? ('0' :: '0' :: hexDigit (c.toNat / 16) :: hexDigit (c.toNat % 16) :: cs) =
      some (c.toNat, cs) := by
    have hzero : hexValue? '0' = some 0 := by decide
    have hsum : 16 * (c.toNat / 16) + c.toNat % 16 = c.toNat := Nat.div_add_mod _ _
    simp [hexWord?, hzero, hexValue?_hexDigit (c.toNat / 16) (by omega),
      hexValue?_hexDigit (c.toNat % 16) (by omega), hsum]
  have hlow : ¬(0xDC00 ≤ c.toNat ∧ c.toNat ≤ 0xDFFF) := by omega
  have hhigh : ¬(0xD800 ≤ c.toNat ∧ c.toNat ≤ 0xDBFF) := by omega
  simp only [unicode?, hword, Option.bind_eq_bind, Option.bind_some, hlow, hhigh, ↓reduceIte]
  rw [Char.ofNat_toNat]
  rfl

/-- Each character of a string is read back from its written form. -/
lemma chars?_ofChar (fuel : ℕ) (c : Char) (cs : List Char) :
    chars? (fuel + 1) (ofChar c ++ cs) = (chars? fuel cs).map fun r => (c :: r.1, r.2) := by
  have hbind : ∀ {e : Char} {cs' : List Char}, escape? cs' = some (e, cs) →
      chars? (fuel + 1) ('\\' :: cs') = (chars? fuel cs).map fun r => (e :: r.1, r.2) := by
    intro e cs' h
    rw [chars?]
    simp only [h, Char.reduceEq, ↓reduceIte, Option.bind_eq_bind, Option.bind_some]
    cases chars? fuel cs <;> rfl
  unfold ofChar
  split
  · next h => subst h; exact hbind rfl
  split
  · next h => subst h; exact hbind rfl
  split
  · next h => subst h; exact hbind rfl
  split
  · next h => subst h; exact hbind rfl
  split
  · next h => subst h; exact hbind rfl
  split
  · next h => subst h; exact hbind rfl
  split
  · next h => subst h; exact hbind rfl
  split
  · next hcontrol => exact hbind (unicode?_control hcontrol cs)
  · next hquote hslash _ _ _ _ _ hcontrol =>
    simp only [List.singleton_append, chars?, hquote, hslash, hcontrol, ↓reduceIte]
    cases chars? fuel cs <;> rfl

lemma chars?_flatMap {fuel : ℕ} (text rest : List Char) (hfuel : text.length < fuel) :
    chars? fuel (text.flatMap ofChar ++ '"' :: rest) = some (text, rest) := by
  induction text generalizing fuel with
  | nil =>
    obtain ⟨fuel, rfl⟩ := Nat.exists_eq_succ_of_ne_zero hfuel.ne'
    rfl
  | cons c text ih =>
    rw [List.length_cons] at hfuel
    obtain ⟨fuel, rfl⟩ := Nat.exists_eq_succ_of_ne_zero (Nat.ne_zero_of_lt hfuel)
    rw [List.flatMap_cons, List.append_assoc, chars?_ofChar, ih (by omega)]
    rfl

lemma length_le_length_flatMap (text : List Char) :
    text.length ≤ (text.flatMap ofChar).length := by
  have hpos : ∀ c, 0 < (ofChar c).length := by
    intro c
    unfold ofChar
    split_ifs <;> simp
  induction text with
  | nil => simp
  | cons c text ih =>
    have := hpos c
    simp only [List.flatMap_cons, List.length_append, List.length_cons]
    omega

theorem string?_flatMap (s : String) (rest : List Char) :
    Reader.string? (s.toList.flatMap ofChar ++ '"' :: rest) = some (s, rest) := by
  have hfuel : s.toList.length < (s.toList.flatMap ofChar ++ '"' :: rest).length := by
    have := length_le_length_flatMap s.toList
    simp only [List.length_append, List.length_cons]
    omega
  rw [Reader.string?, chars?_flatMap _ _ hfuel]
  simp

/-- A text that the reader takes for a value, whatever follows it. Arrays and objects may
be nested as deep as `depth`. -/
structure Reads (depth : ℕ) (text : List Char) (j : Json) : Prop where
  start : ∃ c cs, text = c :: cs ∧ isGap c = false ∧ c ≠ ']'
  value : ∀ fuel rest, text.length ≤ fuel → EndsNumber rest →
    value? depth fuel (text ++ rest) = some (j, rest)

lemma skip_cons {c : Char} (hc : isGap c = false) (cs : List Char) : skip (c :: cs) = c :: cs := by
  simp [skip, hc]

lemma endsNumber_cons {c : Char} (hc : c = ',' ∨ c = ']' ∨ c = '}') (cs : List Char) :
    EndsNumber (c :: cs) := by
  intro d hd
  obtain rfl : c = d := by simpa using hd
  rcases hc with rfl | rfl | rfl <;> decide

theorem reads_ofString (depth : ℕ) (s : String) : Reads depth (ofString s) (.string s) := by
  refine ⟨⟨'"', _, rfl, by decide, by decide⟩, fun fuel rest hfuel _ => ?_⟩
  obtain ⟨fuel, rfl⟩ : ∃ f, fuel = f + 1 :=
    ⟨fuel - 1, by simp only [ofString, List.length_cons] at hfuel; omega⟩
  rw [ofString, List.cons_append, List.append_assoc, value?, skip_cons (by decide)]
  simp [string?_flatMap]

/-- Characters with which values start that are no numbers, or with which none starts. -/
def otherStarts : List Char :=
  [' ', '\t', '\n', '\r', ']', 'n', 't', 'f', '"', '[', '{']

lemma notMem_otherStarts {c : Char} {cs : List Char} {r : Decimal × List Char}
    (h : number? (c :: cs) = some r) : c ∉ otherStarts := by
  have hothers : (otherStarts.all fun d => d != '-' && !d.isDigit) = true := by decide
  intro hc
  obtain ⟨hminus, hdigit⟩ : c ≠ '-' ∧ c.isDigit = false := by
    simpa using List.all_eq_true.mp hothers c hc
  have hdigits : digits (c :: cs) = ([], c :: cs) := by
    simp [digits, hdigit]
  simp [number?, hminus, hdigits] at h

lemma isGap_of_number? {c : Char} {cs : List Char} {r : Decimal × List Char}
    (h : number? (c :: cs) = some r) : isGap c = false := by
  have hc := notMem_otherStarts h
  simp only [otherStarts, List.mem_cons, not_or] at hc
  simp [isGap, hc]

/-- A text that starts with a number is read as one. -/
lemma value?_of_number? {depth fuel : ℕ} {c : Char} {cs : List Char} {r : Decimal × List Char}
    (h : number? (c :: cs) = some r) :
    value? depth (fuel + 1) (c :: cs) = some (.number r.1, r.2) := by
  have hc := notMem_otherStarts h
  simp only [otherStarts, List.mem_cons, not_or] at hc
  rw [value?, skip_cons (isGap_of_number? h)]
  simp [hc, h]

/-- A finite single is read back as a number that is nearest to it. -/
theorem exists_reads_ofSingle (depth : ℕ) {x : Single} (hx : x.isFinite) :
    ∃ d : Decimal, d.toSingle = x ∧ Reads depth (ofSingle x) (.number d) := by
  obtain ⟨d, hd, hread⟩ := exists_number?_ofSingle hx
  have hnil : number? (ofSingle x) = some (d, []) := by
    simpa using hread [] endsNumber_nil
  cases hcons : ofSingle x with
  | nil =>
    rw [hcons] at hnil
    exact absurd hnil (by simp [number?, digits])
  | cons c cs =>
    rw [hcons] at hnil
    have hbracket : c ≠ ']' := by
      rintro rfl
      exact notMem_otherStarts hnil (by decide)
    refine ⟨d, hd, ⟨c, cs, rfl, isGap_of_number? hnil, hbracket⟩, fun fuel rest hfuel hrest => ?_⟩
    rw [List.length_cons] at hfuel
    obtain ⟨fuel, rfl⟩ : ∃ f, fuel = f + 1 := ⟨fuel - 1, by omega⟩
    have hfound := hread rest hrest
    rw [hcons, List.cons_append] at hfound
    exact value?_of_number? hfound

lemma commas_cons_cons (t t' : List Char) (ts : List (List Char)) :
    commas (t :: t' :: ts) = t ++ ',' :: commas (t' :: ts) := by
  simp [commas, List.intercalate_cons_cons]

lemma items?_commas {depth : ℕ} {texts : List (List Char)} {js : List Json}
    (h : List.Forall₂ (Reads depth) texts js) (hne : texts ≠ []) (fuel : ℕ) (rest : List Char)
    (hfuel : (commas texts).length < fuel) :
    items? depth fuel (commas texts ++ ']' :: rest) = some (js, rest) := by
  induction h generalizing fuel with
  | nil => exact absurd rfl hne
  | @cons t j texts js ht hrest ih =>
    obtain ⟨fuel, rfl⟩ := Nat.exists_eq_succ_of_ne_zero (Nat.ne_zero_of_lt hfuel)
    cases hrest with
    | nil =>
      have hlen : (commas [t]).length = t.length := by simp [commas]
      have hread := ht.value fuel (']' :: rest) (by omega) (endsNumber_cons (by decide) rest)
      simp [items?, commas, hread, skip_cons, isGap]
    | @cons t' j' texts js ht' hrest =>
      rw [commas_cons_cons, List.length_append, List.length_cons] at hfuel
      have hread := ht.value fuel (',' :: (commas (t' :: texts) ++ ']' :: rest)) (by omega)
        (endsNumber_cons (by decide) _)
      have hmore := ih (by simp) fuel (by omega)
      rw [commas_cons_cons, List.append_assoc, List.cons_append]
      simp [items?, hread, hmore, skip_cons, isGap]

lemma head_commas {depth : ℕ} {t : List Char} (texts : List (List Char)) {j : Json}
    (ht : Reads depth t j) : ∃ c cs, commas (t :: texts) = c :: cs ∧ isGap c = false ∧ c ≠ ']' := by
  obtain ⟨c, cs, rfl, hc⟩ := ht.start
  cases texts with
  | nil => exact ⟨c, cs, by simp [commas], hc⟩
  | cons t' texts => exact ⟨c, _, by rw [commas_cons_cons, List.cons_append], hc⟩

lemma value?_array_nil (depth fuel : ℕ) (cs : List Char) :
    value? (depth + 1) (fuel + 1) ('[' :: ']' :: cs) = some (.array [], cs) := by
  rw [value?, skip_cons (by decide)]
  simp [skip_cons, isGap]

lemma value?_array {depth fuel : ℕ} {c : Char} {cs : List Char} (hgap : isGap c = false)
    (hc : c ≠ ']') : value? (depth + 1) (fuel + 1) ('[' :: c :: cs) =
      (items? depth fuel (c :: cs)).map fun r => (.array r.1, r.2) := by
  rw [value?, skip_cons (by decide)]
  simp [skip_cons hgap, hc]

theorem reads_ofItems {depth : ℕ} {texts : List (List Char)} {js : List Json}
    (h : List.Forall₂ (Reads depth) texts js) : Reads (depth + 1) (ofItems texts) (.array js) := by
  refine ⟨⟨'[', _, rfl, by decide, by decide⟩, fun fuel rest hfuel _ => ?_⟩
  simp only [ofItems, List.length_cons, List.length_append, List.length_nil] at hfuel
  obtain ⟨fuel, rfl⟩ : ∃ f, fuel = f + 1 := ⟨fuel - 1, by omega⟩
  rw [ofItems, List.cons_append, List.append_assoc, List.singleton_append]
  cases h with
  | nil => exact value?_array_nil depth fuel rest
  | @cons t j texts js ht hrest =>
    have hread := items?_commas (.cons ht hrest) (by simp) fuel rest (by omega)
    obtain ⟨c, cs, hcommas, hgap, hbracket⟩ := head_commas texts ht
    rw [hcommas, List.cons_append] at hread ⊢
    rw [value?_array hgap hbracket, hread, Option.map_some]

def memberText (m : String × List Char) : List Char :=
  ofString m.1 ++ ':' :: m.2

lemma ofMembers_eq (ms : List (String × List Char)) :
    ofMembers ms = '{' :: (commas (ms.map memberText) ++ ['}']) := rfl

def ReadsMember (depth : ℕ) (m : String × List Char) (r : String × Json) : Prop :=
  m.1 = r.1 ∧ Reads depth m.2 r.2

lemma members?_memberText {depth fuel : ℕ} {m : String × List Char} {r : String × Json}
    (h : ReadsMember depth m r) {c : Char} (hc : c = ',' ∨ c = '}') (cs : List Char)
    (hfuel : m.2.length ≤ fuel) :
    members? depth (fuel + 1) (memberText m ++ c :: cs) =
      if c = ',' then (members? depth fuel cs).map fun rs => (r :: rs.1, rs.2)
      else some ([r], cs) := by
  obtain ⟨name, text⟩ := m
  obtain ⟨_, j⟩ := r
  obtain ⟨rfl, hread⟩ := h
  have hvalue := hread.value fuel (c :: cs) hfuel (endsNumber_cons (hc.imp_right .inr) cs)
  have htext : memberText (name, text) ++ c :: cs =
      '"' :: (name.toList.flatMap ofChar ++ '"' :: (':' :: (text ++ c :: cs))) := by
    simp [memberText, ofString]
  have hcolon : skip (':' :: (text ++ c :: cs)) = ':' :: (text ++ c :: cs) :=
    skip_cons (by decide) _
  have hmark : skip (c :: cs) = c :: cs := by
    rcases hc with rfl | rfl <;> exact skip_cons (by decide) cs
  simp only at hvalue
  rw [htext, members?, skip_cons (by decide)]
  simp only [Option.bind_eq_bind, string?_flatMap, Option.bind_some, hcolon, hvalue, hmark]
  rcases hc with rfl | rfl
  · cases hrest : members? depth fuel cs <;> simp [hrest]
  · simp

lemma members?_commas {depth : ℕ} {ms : List (String × List Char)} {rs : List (String × Json)}
    (h : List.Forall₂ (ReadsMember depth) ms rs) (hne : ms ≠ []) (fuel : ℕ) (rest : List Char)
    (hfuel : (commas (ms.map memberText)).length < fuel) :
    members? depth fuel (commas (ms.map memberText) ++ '}' :: rest) = some (rs, rest) := by
  induction h generalizing fuel with
  | nil => exact absurd rfl hne
  | @cons m r ms rs hm hrest ih =>
    obtain ⟨fuel, rfl⟩ := Nat.exists_eq_succ_of_ne_zero (Nat.ne_zero_of_lt hfuel)
    have hshort : m.2.length < (memberText m).length := by
      simp only [memberText, List.length_append, List.length_cons]
      omega
    cases hrest with
    | nil =>
      have hone : commas ([m].map memberText) = memberText m := by simp [commas]
      rw [hone] at hfuel ⊢
      rw [members?_memberText hm (by decide) rest (by omega)]
      rfl
    | @cons m' r' ms rs hm' hrest =>
      rw [List.map_cons, List.map_cons, commas_cons_cons, List.length_append,
        List.length_cons] at hfuel
      rw [List.map_cons, List.map_cons, commas_cons_cons, List.append_assoc, List.cons_append,
        members?_memberText hm (by decide) _ (by omega)]
      have hmore := ih (by simp) fuel (by rw [List.map_cons]; omega)
      rw [List.map_cons] at hmore
      simp [hmore]

lemma value?_object_nil (depth fuel : ℕ) (cs : List Char) :
    value? (depth + 1) (fuel + 1) ('{' :: '}' :: cs) = some (.object [], cs) := by
  rw [value?, skip_cons (by decide)]
  simp [skip_cons, isGap]

lemma value?_object (depth fuel : ℕ) (cs : List Char) :
    value? (depth + 1) (fuel + 1) ('{' :: '"' :: cs) =
      (members? depth fuel ('"' :: cs)).map fun r => (.object r.1, r.2) := by
  rw [value?, skip_cons (by decide)]
  simp [skip_cons, isGap]

/-- Names with written values make a written object. -/
theorem reads_ofMembers {depth : ℕ} {ms : List (String × List Char)} {rs : List (String × Json)}
    (h : List.Forall₂ (ReadsMember depth) ms rs) :
    Reads (depth + 1) (ofMembers ms) (.object rs) := by
  refine ⟨⟨'{', _, rfl, by decide, by decide⟩, fun fuel rest hfuel _ => ?_⟩
  simp only [ofMembers_eq, List.length_cons, List.length_append, List.length_nil] at hfuel
  obtain ⟨fuel, rfl⟩ : ∃ f, fuel = f + 1 := ⟨fuel - 1, by omega⟩
  rw [ofMembers_eq, List.cons_append, List.append_assoc, List.singleton_append]
  cases h with
  | nil => exact value?_object_nil depth fuel rest
  | @cons m r ms rs hm hrest =>
    have hread := members?_commas (.cons hm hrest) (by simp) fuel rest (by omega)
    obtain ⟨cs, hcommas⟩ : ∃ cs, commas ((m :: ms).map memberText) = '"' :: cs := by
      cases ms with
      | nil => exact ⟨_, by simp [commas, memberText, ofString]; rfl⟩
      | cons m' ms =>
        exact ⟨_, by rw [List.map_cons, List.map_cons, commas_cons_cons, memberText, ofString]; rfl⟩
    rw [hcommas, List.cons_append] at hread ⊢
    rw [value?_object, hread, Option.map_some]

/-- A text that is one written value is read as a whole. -/
theorem parse?_of_reads {text : List Char} {j : Json} (h : Reads depthLimit text j) :
    parse? text = some j := by
  have hread := h.value (2 * text.length + 2) [] (by omega) endsNumber_nil
  rw [List.append_nil] at hread
  rw [parse?, hread]
  rfl

end CodeSearch.Json
