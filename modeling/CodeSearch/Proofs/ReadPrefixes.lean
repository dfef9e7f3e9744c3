import CodeSearch.Proofs.WrittenRecords

/-!
# Reading with more text behind

Where the reader stops before the end of a text, it does not look at what stands behind:
more text and more fuel change nothing. So no beginning of a written record is a record, and
neither is a record with more than gaps behind it.
-/
namespace CodeSearch.Json.Reader

variable {cs rest more : List Char}

lemma skip_append {c : Char} (h : skip cs = c :: rest) (more : List Char) :
    skip (cs ++ more) = c :: (rest ++ more) := by
  induction cs with
  | nil => cases h
  | cons d cs ih =>
    by_cases hd : isGap d = true
    · have hskip (cs : List Char) : skip (d :: cs) = skip cs := by simp [skip, hd]
      rw [hskip] at h
      rw [List.cons_append, hskip]
      exact ih h
    · have hskip (cs : List Char) : skip (d :: cs) = d :: cs := by simp [skip, hd]
      rw [hskip] at h
      obtain ⟨rfl, rfl⟩ := List.cons.inj h
      rw [List.cons_append, hskip]

lemma hexWord?_append {n : ℕ} (h : hexWord? cs = some (n, rest)) (more : List Char) :
    hexWord? (cs ++ more) = some (n, rest ++ more) := by
  unfold hexWord? at h
  split at h
  · next a b c d cs =>
    obtain ⟨va, ha, h⟩ := Option.bind_eq_some_iff.mp h
    obtain ⟨vb, hb, h⟩ := Option.bind_eq_some_iff.mp h
    obtain ⟨vc, hc, h⟩ := Option.bind_eq_some_iff.mp h
    obtain ⟨vd, hd, h⟩ := Option.bind_eq_some_iff.mp h
    obtain ⟨rfl, rfl⟩ := Prod.mk.inj (Option.some.inj h)
    simp [hexWord?, ha, hb, hc, hd]
  · cases h

lemma unicode?_append {c : Char} (h : unicode? cs = some (c, rest)) (more : List Char) :
    unicode? (cs ++ more) = some (c, rest ++ more) := by
  unfold unicode? at h ⊢
  obtain ⟨⟨n, cs'⟩, hword, h⟩ := Option.bind_eq_some_iff.mp h
  dsimp only at h
  simp only [hexWord?_append hword, Option.bind_eq_bind, Option.bind_some]
  split_ifs at h ⊢ with hlow hhigh
  · split at h
    · obtain ⟨⟨m, cs''⟩, hword', h⟩ := Option.bind_eq_some_iff.mp h
      dsimp only at h
      simp only [List.cons_append, hexWord?_append hword', Option.bind_some]
      split_ifs at h ⊢ with hm
      obtain ⟨rfl, rfl⟩ := Prod.mk.inj (Option.some.inj h)
      rfl
    · cases h
  · obtain ⟨rfl, rfl⟩ := Prod.mk.inj (Option.some.inj h)
    rfl

lemma escape?_append {c : Char} (h : escape? cs = some (c, rest)) (more : List Char) :
    escape? (cs ++ more) = some (c, rest ++ more) := by
  cases cs with
  | nil => cases h
  | cons d cs =>
    unfold escape? at h
    split at h
    case h_9 heq =>
      obtain ⟨rfl, rfl⟩ := List.cons.inj heq
      exact unicode?_append h more
    case h_10 => cases h
    all_goals
      next heq =>
      obtain ⟨rfl, rfl⟩ := List.cons.inj heq
      obtain ⟨rfl, rfl⟩ := Prod.mk.inj (Option.some.inj h)
      rfl

lemma chars?_append {fuel fuel' : ℕ} (hle : fuel ≤ fuel') {text : List Char}
    (h : chars? fuel cs = some (text, rest)) (more : List Char) :
    chars? fuel' (cs ++ more) = some (text, rest ++ more) := by
  induction fuel generalizing fuel' cs text with
  | zero => simp [chars?] at h
  | succ fuel ih =>
    obtain ⟨fuel', rfl⟩ : ∃ f, fuel' = f + 1 := ⟨fuel' - 1, by omega⟩
    have hle' : fuel ≤ fuel' := by omega
    cases cs with
    | nil => simp [chars?] at h
    | cons c cs =>
      rw [List.cons_append]
      unfold chars? at h ⊢
      split_ifs at h ⊢ with hquote hslash hlow
      · obtain ⟨rfl, rfl⟩ := Prod.mk.inj (Option.some.inj h)
        rfl
      · obtain ⟨⟨e, cs'⟩, hescape, h⟩ := Option.bind_eq_some_iff.mp h
        obtain ⟨⟨text', rest'⟩, hrest, h⟩ := Option.bind_eq_some_iff.mp h
        obtain ⟨rfl, rfl⟩ := Prod.mk.inj (Option.some.inj h)
        simp [escape?_append hescape, ih hle' hrest]
      · obtain ⟨⟨text', rest'⟩, hrest, h⟩ := Option.bind_eq_some_iff.mp h
        obtain ⟨rfl, rfl⟩ := Prod.mk.inj (Option.some.inj h)
        simp [ih hle' hrest]

lemma string?_append {s : String} (h : Reader.string? cs = some (s, rest)) (more : List Char) :
    Reader.string? (cs ++ more) = some (s, rest ++ more) := by
  obtain ⟨⟨text, rest'⟩, hchars, heq⟩ := Option.map_eq_some_iff.mp h
  obtain ⟨rfl, rfl⟩ := Prod.mk.inj heq
  have hle : cs.length ≤ (cs ++ more).length := by simp
  rw [Reader.string?, chars?_append hle hchars more]
  rfl

lemma word?_append {word : List Char} (h : word? word cs = some rest) (more : List Char) :
    word? word (cs ++ more) = some (rest ++ more) := by
  induction word generalizing cs with
  | nil =>
    obtain rfl := Option.some.inj h
    rfl
  | cons w word ih =>
    cases cs with
    | nil => cases h
    | cons c cs =>
      rw [word?] at h
      rw [List.cons_append, word?]
      split_ifs at h ⊢
      exact ih h

lemma map_word?_append {word : List Char} {j j' : Json}
    (h : (word? word cs).map (j, ·) = some (j', rest)) (more : List Char) :
    (word? word (cs ++ more)).map (j, ·) = some (j', rest ++ more) := by
  obtain ⟨cs', hword, heq⟩ := Option.map_eq_some_iff.mp h
  obtain ⟨rfl, rfl⟩ := Prod.mk.inj heq
  rw [word?_append hword]
  rfl

/-! ## Numbers -/

/-- Digits that end before the end of a text go on with nothing behind it. -/
lemma digits_append_of_ne_nil (hne : (digits cs).2 ≠ []) (more : List Char) :
    digits (cs ++ more) = ((digits cs).1, (digits cs).2 ++ more) := by
  have hsplit : cs = (digits cs).1 ++ (digits cs).2 := List.takeWhile_append_dropWhile.symm
  conv_lhs => rw [hsplit, List.append_assoc]
  refine digits_append (fun c hc => List.mem_takeWhile_imp hc) fun c hc => ?_
  have hhead := List.head?_dropWhile_not Char.isDigit cs
  rw [List.head?_append_of_ne_nil _ hne] at hc
  change (cs.dropWhile Char.isDigit).head? = some c at hc
  rwa [hc] at hhead

lemma fraction?_append_of_ne_nil {ds : List Char} (h : fraction? cs = some (ds, rest))
    (hne : rest ≠ []) (more : List Char) : fraction? (cs ++ more) = some (ds, rest ++ more) := by
  unfold fraction? at h
  split at h
  · next cs =>
    by_cases hempty : (digits cs).1.isEmpty = true
    · simp [hempty] at h
    · rw [if_neg hempty, Option.some.injEq] at h
      have hdigits := digits_append_of_ne_nil (by rwa [h]) more
      simp only [List.cons_append, fraction?, hdigits, h]
      rw [h] at hempty
      exact if_neg hempty
  · next cs hdot =>
    obtain ⟨rfl, rfl⟩ := Prod.mk.inj (Option.some.inj h)
    obtain ⟨c, cs, rfl⟩ := List.exists_cons_of_ne_nil hne
    have hc : c ≠ '.' := fun hc => hdot cs (by rw [hc])
    simp [fraction?, hc]

lemma exponent?_append_of_ne_nil {e : ℤ} (h : exponent? cs = some (e, rest)) (hne : rest ≠ [])
    (more : List Char) : exponent? (cs ++ more) = some (e, rest ++ more) := by
  obtain _ | ⟨c, cs⟩ := cs
  · obtain ⟨-, rfl⟩ := Prod.mk.inj (Option.some.inj h)
    exact absurd rfl hne
  rw [List.cons_append]
  dsimp only [exponent?] at h ⊢
  by_cases he : (decide (c = 'e') || decide (c = 'E')) = true
  · rw [if_pos he] at h ⊢
    have hcs : cs ≠ [] := by
      rintro rfl
      simp [digits] at h
    have hbody : (if (decide (cs.head? = some '-') || decide (cs.head? = some '+')) = true
        then cs.tail ++ more else cs ++ more) =
        (if (decide (cs.head? = some '-') || decide (cs.head? = some '+')) = true
          then cs.tail else cs) ++ more := by
      split <;> rfl
    rw [List.head?_append_of_ne_nil _ hcs, List.tail_append_of_ne_nil hcs, hbody]
    generalize (if (decide (cs.head? = some '-') || decide (cs.head? = some '+')) = true
      then cs.tail else cs) = body at h ⊢
    by_cases hempty : (digits body).1.isEmpty = true
    · simp [hempty] at h
    · rw [if_neg hempty] at h
      obtain ⟨rfl, rfl⟩ := Prod.mk.inj (Option.some.inj h)
      rw [digits_append_of_ne_nil hne, if_neg hempty]
  · rw [if_neg he] at h ⊢
    obtain ⟨rfl, rfl⟩ := Prod.mk.inj (Option.some.inj h)
    rfl

lemma exponent?_nil {e : ℤ} (h : exponent? [] = some (e, rest)) : rest = [] := by
  obtain ⟨-, rfl⟩ := Prod.mk.inj (Option.some.inj h)
  rfl

lemma fraction?_nil {ds : List Char} (h : fraction? [] = some (ds, rest)) : rest = [] := by
  obtain ⟨-, rfl⟩ := Prod.mk.inj (Option.some.inj h)
  rfl

/-- A number that ends before the end of a text does so with more behind. -/
lemma number?_append_of_ne_nil {d : Decimal} (h : number? cs = some (d, rest)) (hne : rest ≠ [])
    (more : List Char) : number? (cs ++ more) = some (d, rest ++ more) := by
  have hcs : cs ≠ [] := by
    rintro rfl
    simp [number?, digits] at h
  have hbody : (if cs.head? = some '-' then cs.tail ++ more else cs ++ more) =
      (if cs.head? = some '-' then cs.tail else cs) ++ more := by
    split <;> rfl
  unfold number? at h ⊢
  dsimp only at h ⊢
  rw [List.head?_append_of_ne_nil _ hcs, List.tail_append_of_ne_nil hcs, hbody]
  generalize (if cs.head? = some '-' then cs.tail else cs) = body at h ⊢
  by_cases hbad : ((digits body).1.isEmpty || (decide (1 < (digits body).1.length) &&
      decide ((digits body).1.head? = some '0'))) = true
  · rw [if_pos hbad] at h
    cases h
  rw [if_neg hbad] at h
  obtain ⟨⟨behind, cs₁⟩, hfraction, h⟩ := Option.bind_eq_some_iff.mp h
  obtain ⟨⟨exponent, cs₂⟩, hexponent, h⟩ := Option.bind_eq_some_iff.mp h
  dsimp only at hexponent h
  split_ifs at h with hfits
  obtain ⟨rfl, rfl⟩ := Prod.mk.inj (Option.some.inj h)
  -- what is left over at the end has been left over by every part before
  have hne₁ : cs₁ ≠ [] := by
    rintro rfl
    exact hne (exponent?_nil hexponent)
  have hne₂ : (digits body).2 ≠ [] := by
    intro hnil
    rw [hnil] at hfraction
    exact hne₁ (fraction?_nil hfraction)
  rw [digits_append_of_ne_nil hne₂]
  dsimp only
  rw [if_neg hbad, fraction?_append_of_ne_nil hfraction hne₁]
  dsimp only [Option.bind_eq_bind, Option.bind_some]
  rw [exponent?_append_of_ne_nil hexponent hne, Option.bind_some]
  exact if_pos hfits

/-! ## Values -/

/-- A value that ends where more text could not go on with it. -/
def Ended (j : Json) (rest : List Char) : Prop :=
  rest ≠ [] ∨ ∀ d, j ≠ .number d

/-- With this much fuel, values are read alike with more fuel and more text behind. -/
def ValueGoesOn (fuel : ℕ) : Prop :=
  ∀ {depth fuel' : ℕ} {cs : List Char} {j : Json} {rest : List Char}, fuel ≤ fuel' →
    value? depth fuel cs = some (j, rest) → Ended j rest →
      ∀ more, value? depth fuel' (cs ++ more) = some (j, rest ++ more)

def ItemsGoOn (fuel : ℕ) : Prop :=
  ∀ {depth fuel' : ℕ} {cs : List Char} {items : List Json} {rest : List Char}, fuel ≤ fuel' →
    items? depth fuel cs = some (items, rest) →
      ∀ more, items? depth fuel' (cs ++ more) = some (items, rest ++ more)

def MembersGoOn (fuel : ℕ) : Prop :=
  ∀ {depth fuel' : ℕ} {cs : List Char} {members : List (String × Json)} {rest : List Char},
    fuel ≤ fuel' → members? depth fuel cs = some (members, rest) →
      ∀ more, members? depth fuel' (cs ++ more) = some (members, rest ++ more)

lemma value?_nil (depth fuel : ℕ) : value? depth fuel [] = none := by
  cases fuel <;> rfl

lemma items?_nil (depth fuel : ℕ) : items? depth fuel [] = none := by
  cases fuel with
  | zero => rfl
  | succ fuel => simp [items?, value?_nil]

lemma members?_nil (depth fuel : ℕ) : members? depth fuel [] = none := by
  cases fuel <;> rfl

lemma ne_nil_of_skip {c : Char} (h : skip cs = c :: rest) : cs ≠ [] := by
  rintro rfl
  cases h

lemma value_goesOn_succ {fuel : ℕ} (hitems : ItemsGoOn fuel) (hmembers : MembersGoOn fuel) :
    ValueGoesOn (fuel + 1) := by
  intro depth fuel' cs j rest hle h hended more
  obtain ⟨fuel', rfl⟩ : ∃ f, fuel' = f + 1 := ⟨fuel' - 1, by omega⟩
  have hle' : fuel ≤ fuel' := by omega
  unfold value? at h ⊢
  cases hskip : skip cs with
  | nil => simp [hskip] at h
  | cons c inner =>
    rw [hskip] at h
    rw [skip_append hskip]
    dsimp only at h ⊢
    split_ifs at h ⊢ with hn ht hf hquote hbracket hbrace
    · exact map_word?_append h more
    · exact map_word?_append h more
    · exact map_word?_append h more
    · obtain ⟨⟨s, cs'⟩, hstring, heq⟩ := Option.map_eq_some_iff.mp h
      obtain ⟨rfl, rfl⟩ := Prod.mk.inj heq
      rw [string?_append hstring]
      rfl
    · split at h
      · cases h
      · next hinner =>
        obtain ⟨rfl, rfl⟩ := Prod.mk.inj (Option.some.inj h)
        rw [skip_append hinner]
        rfl
      · next depth _ hopen =>
        obtain ⟨⟨items, cs'⟩, hread, heq⟩ := Option.map_eq_some_iff.mp h
        obtain ⟨rfl, rfl⟩ := Prod.mk.inj heq
        cases hinner : skip inner with
        | nil => simp [hinner, items?_nil] at hread
        | cons d deeper =>
          rw [hinner] at hread hopen
          have hd : d ≠ ']' := by
            rintro rfl
            exact hopen _ rfl
          have hmore := hitems hle' hread more
          rw [List.cons_append] at hmore
          simp [skip_append hinner, hd, hmore]
    · split at h
      · cases h
      · next hinner =>
        obtain ⟨rfl, rfl⟩ := Prod.mk.inj (Option.some.inj h)
        rw [skip_append hinner]
        rfl
      · next depth _ hopen =>
        obtain ⟨⟨members, cs'⟩, hread, heq⟩ := Option.map_eq_some_iff.mp h
        obtain ⟨rfl, rfl⟩ := Prod.mk.inj heq
        cases hinner : skip inner with
        | nil => simp [hinner, members?_nil] at hread
        | cons d deeper =>
          rw [hinner] at hread hopen
          have hd : d ≠ '}' := by
            rintro rfl
            exact hopen _ rfl
          have hmore := hmembers hle' hread more
          rw [List.cons_append] at hmore
          simp [skip_append hinner, hd, hmore]
    · obtain ⟨⟨d, cs'⟩, hnumber, heq⟩ := Option.map_eq_some_iff.mp h
      obtain ⟨rfl, rfl⟩ := Prod.mk.inj heq
      have hne : cs' ≠ [] := hended.resolve_right fun hnot => hnot d rfl
      rw [← List.cons_append, number?_append_of_ne_nil hnumber hne]
      rfl

/-- What follows an item tells that it has ended. -/
lemma items_goOn_succ {fuel : ℕ} (hvalue : ValueGoesOn fuel) (hitems : ItemsGoOn fuel) :
    ItemsGoOn (fuel + 1) := by
  intro depth fuel' cs items rest hle h more
  obtain ⟨fuel', rfl⟩ : ∃ f, fuel' = f + 1 := ⟨fuel' - 1, by omega⟩
  have hle' : fuel ≤ fuel' := by omega
  unfold items? at h ⊢
  obtain ⟨⟨item, cs'⟩, hitem, h⟩ := Option.bind_eq_some_iff.mp h
  dsimp only at h
  cases hskip : skip cs' with
  | nil => simp [hskip] at h
  | cons c inner =>
    have hread := hvalue hle' hitem (.inl (ne_nil_of_skip hskip)) more
    rw [hread]
    dsimp only [Option.bind_eq_bind, Option.bind_some]
    rw [skip_append hskip]
    rw [hskip] at h
    split at h
    · next heq =>
      obtain ⟨rfl, rfl⟩ := List.cons.inj heq
      obtain ⟨rfl, rfl⟩ := Prod.mk.inj (Option.some.inj h)
      rfl
    · next heq =>
      obtain ⟨rfl, rfl⟩ := List.cons.inj heq
      obtain ⟨⟨items', cs''⟩, hrest, h⟩ := Option.bind_eq_some_iff.mp h
      obtain ⟨rfl, rfl⟩ := Prod.mk.inj (Option.some.inj h)
      simp [hitems hle' hrest more]
    · cases h

lemma members_goOn_succ {fuel : ℕ} (hvalue : ValueGoesOn fuel) (hmembers : MembersGoOn fuel) :
    MembersGoOn (fuel + 1) := by
  intro depth fuel' cs members rest hle h more
  obtain ⟨fuel', rfl⟩ : ∃ f, fuel' = f + 1 := ⟨fuel' - 1, by omega⟩
  have hle' : fuel ≤ fuel' := by omega
  unfold members? at h ⊢
  split at h
  · next hquote =>
    obtain ⟨⟨name, cs₁⟩, hname, h⟩ := Option.bind_eq_some_iff.mp h
    dsimp only at h
    split at h
    · next hcolon =>
      obtain ⟨⟨value, cs₂⟩, hread, h⟩ := Option.bind_eq_some_iff.mp h
      dsimp only at h
      cases hskip : skip cs₂ with
      | nil => simp [hskip] at h
      | cons c inner =>
        have hvalue' := hvalue hle' hread (.inl (ne_nil_of_skip hskip)) more
        simp only [skip_append hquote, string?_append hname, skip_append hcolon, hvalue',
          skip_append hskip, Option.bind_eq_bind, Option.bind_some]
        rw [hskip] at h
        split at h
        · next heq =>
          obtain ⟨rfl, rfl⟩ := List.cons.inj heq
          obtain ⟨rfl, rfl⟩ := Prod.mk.inj (Option.some.inj h)
          rfl
        · next heq =>
          obtain ⟨rfl, rfl⟩ := List.cons.inj heq
          obtain ⟨⟨members', cs''⟩, hrest, h⟩ := Option.bind_eq_some_iff.mp h
          obtain ⟨rfl, rfl⟩ := Prod.mk.inj (Option.some.inj h)
          simp [hmembers hle' hrest more]
        · cases h
    · cases h
  · cases h

/-- Where the reader has stopped it stops with more fuel and more text behind. -/
theorem all_goOn (fuel : ℕ) : ValueGoesOn fuel ∧ ItemsGoOn fuel ∧ MembersGoOn fuel := by
  induction fuel with
  | zero =>
    refine ⟨?_, ?_, ?_⟩
    · intro depth fuel' cs j rest _ h
      cases h
    · intro depth fuel' cs items rest _ h
      cases h
    · intro depth fuel' cs members rest _ h
      cases h
  | succ fuel ih =>
    obtain ⟨hvalue, hitems, hmembers⟩ := ih
    exact ⟨value_goesOn_succ hitems hmembers, items_goOn_succ hvalue hitems,
      members_goOn_succ hvalue hmembers⟩

/-! ## Gaps in front -/

variable {gaps : List Char}

lemma skip_gaps (hgaps : ∀ c ∈ gaps, isGap c = true) (cs : List Char) :
    skip (gaps ++ cs) = skip cs :=
  List.dropWhile_append_of_pos hgaps

lemma value?_gaps (hgaps : ∀ c ∈ gaps, isGap c = true) (depth fuel : ℕ) (cs : List Char) :
    value? depth fuel (gaps ++ cs) = value? depth fuel cs := by
  cases fuel with
  | zero => rfl
  | succ fuel => rw [value?, value?, skip_gaps hgaps]

/-- A written value is read behind gaps as it is without them. -/
lemma value?_gaps_of_reads {text : List Char} {j : Json} (h : Reads depthLimit text j)
    (hgaps : ∀ c ∈ gaps, isGap c = true) {fuel : ℕ} (hfuel : text.length ≤ fuel) :
    value? depthLimit fuel (gaps ++ text) = some (j, []) := by
  have hread := h.value fuel [] hfuel endsNumber_nil
  rw [List.append_nil] at hread
  rw [value?_gaps hgaps, hread]

end CodeSearch.Json.Reader

namespace CodeSearch.Record

open Json Json.Reader Json.Writer

variable {gaps cs more : List Char} {r : Record}

lemma exists_reads_print (hr : r.IsFinite) : ∃ j, Reads depthLimit r.print j := by
  cases r with
  | put d =>
    obtain ⟨numerals, -, hread⟩ := exists_reads_ofDocument 124 hr
    have hmember : ReadsMember 126 ("put", ofDocument d) ("put", jsonOf d numerals) := ⟨rfl, hread⟩
    exact ⟨_, reads_ofMembers (.cons hmember .nil)⟩
  | delete id =>
    have hmember : ReadsMember 126 ("delete", ofString id) ("delete", .string id) :=
      ⟨rfl, reads_ofString 126 id⟩
    exact ⟨_, reads_ofMembers (.cons hmember .nil)⟩

/-- A line that holds a record holds an object, with nothing but gaps behind it. -/
lemma exists_object_of_parse? (h : parse? cs = some r) : ∃ members rest,
    value? depthLimit (2 * cs.length + 2) cs = some (.object members, rest) ∧ skip rest = [] := by
  obtain ⟨j, hparse, hjson⟩ := Option.bind_eq_some_iff.mp h
  obtain ⟨⟨j', rest⟩, hvalue, hrest⟩ := Option.bind_eq_some_iff.mp hparse
  dsimp only at hrest
  split_ifs at hrest with hskip
  obtain rfl := Option.some.inj hrest
  unfold ofJson? at hjson
  split at hjson
  · exact ⟨_, rest, hvalue, List.isEmpty_iff.mp hskip⟩
  · cases hjson

/-- The first character of a line that holds a record, gaps apart, is a brace. -/
lemma exists_skip_of_parse? (h : parse? cs = some r) : ∃ rest, skip cs = '{' :: rest := by
  obtain ⟨members, rest, hvalue, -⟩ := exists_object_of_parse? h
  unfold value? at hvalue
  split at hvalue
  · cases hvalue
  · next c inner hskip =>
    by_cases hbrace : c = '{'
    · rw [hbrace] at hskip
      exact ⟨inner, hskip⟩
    · -- whatever else it starts is no object
      rw [if_neg hbrace] at hvalue
      split_ifs at hvalue
      all_goals try split at hvalue
      all_goals simp at hvalue

theorem parse?_append_eq_none (h : parse? cs = some r) (hmore : skip more ≠ []) :
    parse? (cs ++ more) = none := by
  obtain ⟨members, rest, hvalue, hrest⟩ := exists_object_of_parse? h
  have hle : 2 * cs.length + 2 ≤ 2 * (cs ++ more).length + 2 := by
    rw [List.length_append]
    omega
  have hread := (all_goOn _).1 hle hvalue (.inr (by simp)) more
  have hgaps : ∀ c ∈ rest, isGap c = true := by
    simpa [skip, List.dropWhile_eq_nil_iff] using hrest
  have hskip : skip (rest ++ more) ≠ [] := by
    rwa [skip_gaps hgaps]
  rw [parse?, Reader.parse?, hread]
  simp [hskip]

theorem parse?_gaps_print (hr : r.IsFinite) (hgaps : ∀ c ∈ gaps, isGap c = true) :
    parse? (gaps ++ r.print) = some r := by
  obtain ⟨j, hreads⟩ := exists_reads_print hr
  have hjson : ofJson? j = some r := by
    have hprint := parse?_print hr
    rwa [parse?, parse?_of_reads hreads, Option.bind_some] at hprint
  have hvalue := value?_gaps_of_reads hreads hgaps
    (show r.print.length ≤ 2 * (gaps ++ r.print).length + 2 by rw [List.length_append]; omega)
  rw [parse?, Reader.parse?, hvalue]
  exact hjson

theorem parse?_of_prefix (hr : r.IsFinite) (hgaps : ∀ c ∈ gaps, isGap c = true)
    (h : cs ++ more = r.print) (hmore : more ≠ []) : parse? (gaps ++ cs) = none := by
  obtain ⟨j, hreads⟩ := exists_reads_print hr
  by_contra hsome
  obtain ⟨r', hparse⟩ := Option.ne_none_iff_exists'.mp hsome
  obtain ⟨members, rest, hvalue, -⟩ := exists_object_of_parse? hparse
  -- with the rest of the record behind it, the reader would stop before its end
  have hread := (all_goOn _).1 (Nat.le_add_right _ r.print.length) hvalue (.inr (by simp)) more
  rw [List.append_assoc, h, value?_gaps_of_reads hreads hgaps (by omega)] at hread
  obtain ⟨-, hnil⟩ := Prod.mk.inj (Option.some.inj hread)
  exact hmore (List.append_eq_nil_iff.mp hnil.symm).2

end CodeSearch.Record
