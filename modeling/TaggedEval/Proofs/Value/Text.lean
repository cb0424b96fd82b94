import TaggedEval.Proofs.Number.Text
import TaggedEval.Proofs.Value.Equality
import TaggedEval.Value.Parts
import TaggedEval.Value.Text

/-!
# Equal values and equal texts

Equal values have the same text, and values with the same text are equal, unless a text inside them
holds a double quote or a number is NaN (`toString_separates`). Nothing is escaped, so the second
half is shown for a value at the start of a larger text: its spelling tells the value and where the
spelling ends (`Readable`).
-/

namespace TaggedEval

namespace Value

/-! ## Equal values have the same text -/

theorem spellingAll_eq_intercalate (vs : List Value) :
    spellingAll vs = ", ".intercalate (vs.map spelling) := by
  induction vs with
  | nil => rfl
  | cons v vs ih =>
    cases vs with
    | nil => rfl
    | cons w ws =>
      rw [spellingAll, ih]
      · simp only [List.map_cons, String.intercalate_cons_cons]
      · exact List.cons_ne_nil _ _

theorem map_spelling_eq_of_equalAll {vs ws : List Value}
    (hfields : ∀ v ∈ vs, ∀ w, equal v w = true → v.spelling = w.spelling)
    (h : equalAll vs ws = true) : vs.map spelling = ws.map spelling := by
  induction vs generalizing ws with
  | nil =>
    cases ws with
    | nil => rfl
    | cons w ws => cases h
  | cons v vs ih =>
    cases ws with
    | nil => cases h
    | cons w ws =>
      rw [equalAll, Bool.and_eq_true] at h
      rw [List.map_cons, List.map_cons, hfields v List.mem_cons_self w h.1,
        ih (fun u hu => hfields u (List.mem_cons_of_mem _ hu)) h.2]

theorem length_eq_of_equalAll {vs ws : List Value} (h : equalAll vs ws = true) :
    vs.length = ws.length := by
  rw [equalAll_eq, Bool.and_eq_true, beq_iff_eq] at h
  exact h.1

theorem spelling_eq_of_equal {v w : Value} (h : equal v w = true) : v.spelling = w.spelling := by
  induction v using Value.induct generalizing w with
  | number x =>
    cases w with
    | number y => exact numberText_eq_of_beq h
    | text t => cases h
    | tagged u ys => cases h
  | text s =>
    cases w with
    | number y => cases h
    | text t => rw [beq_iff_eq.mp h]
    | tagged u ys => cases h
  | tagged t xs ih =>
    cases w with
    | number y => cases h
    | text s => cases h
    | tagged u ys =>
      rw [equal, Bool.and_eq_true, beq_iff_eq] at h
      rw [spelling, spelling, opening, opening, h.1, length_eq_of_equalAll h.2,
        spellingAll_eq_intercalate, spellingAll_eq_intercalate,
        map_spelling_eq_of_equalAll (fun v hv w hw => ih v hv hw) h.2]

/-! ## Reading a value off a text -/

/-- Two texts that start with characters of one kind and go on with none of that kind start with the
    same. -/
theorem append_inj_of_all {p : Char → Bool} {l l' r r' : List Char} (hl : ∀ c ∈ l, p c = true)
    (hl' : ∀ c ∈ l', p c = true) (hr : ∀ c ∈ r.head?, p c = false)
    (hr' : ∀ c ∈ r'.head?, p c = false) (h : l ++ r = l' ++ r') : l = l' ∧ r = r' := by
  have hstop {l r : List Char} (hl : ∀ c ∈ l, p c = true) (hr : ∀ c ∈ r.head?, p c = false) :
      (l ++ r).takeWhile p = l := by
    rw [List.takeWhile_append_of_pos hl]
    cases r with
    | nil => simp
    | cons c r => simp [hr c rfl]
  have hsame : l = l' := by rw [← hstop hl hr, h, hstop hl' hr']
  subst hsame
  exact ⟨rfl, List.append_cancel_left h⟩

/-- What can follow a value that stands alone or among the fields of another value. -/
def Closes (rest : List Char) : Prop :=
  ∀ c ∈ rest.head?, c = ',' ∨ c = ')'

/-- Wherever the value is written, its text tells the value and where it ends. -/
def Readable (v : Value) : Prop :=
  ∀ w : Value, w.QuoteFree → w.NaNFree → ∀ r r', Closes r → Closes r' →
    v.spelling.toList ++ r = w.spelling.toList ++ r' → equal v w = true ∧ r = r'

theorem isNaN_of_naNFree {x : Float} (h : (Value.number x).NaNFree) : x.isNaN = false :=
  h x List.mem_cons_self

theorem not_mem_of_quoteFree {s : String} (h : (Value.text s).QuoteFree) : '"' ∉ s.toList :=
  h s List.mem_cons_self

theorem toList_spelling_text (s : String) (r : List Char) :
    (Value.text s).spelling.toList ++ r = '"' :: (s.toList ++ '"' :: r) := by
  simp [spelling, String.toList_append]

theorem toList_opening (tag : UInt32) (fields : List Value) (r : List Char) :
    (opening tag fields).toList ++ r =
      't' :: 'a' :: 'g' :: '_' :: (tag.toNat.repr.toList ++
        '_' :: (fields.length.repr.toList ++ '(' :: r)) := by
  simp [opening, String.toList_append]

theorem toList_spelling_tagged (tag : UInt32) (fields : List Value) (r : List Char) :
    (Value.tagged tag fields).spelling.toList ++ r =
      (opening tag fields).toList ++ ((spellingAll fields).toList ++ ')' :: r) := by
  simp [spelling, String.toList_append]

theorem repr_append_inj {m n : Nat} {c : Char} {r r' : List Char} (hc : c.isDigit = false)
    (h : m.repr.toList ++ c :: r = n.repr.toList ++ c :: r') : m = n ∧ r = r' := by
  have hdigits (k : Nat) : ∀ c ∈ k.repr.toList, c.isDigit = true := fun c hmem =>
    Nat.isDigit_of_mem_toDigits (by decide) (by decide) (Nat.toList_repr ▸ hmem)
  have hstop (r : List Char) : ∀ d ∈ (c :: r).head?, d.isDigit = false := by
    rintro d ⟨⟩
    exact hc
  obtain ⟨hrepr, hrest⟩ := append_inj_of_all (hdigits m) (hdigits n) (hstop r) (hstop r') h
  rw [Nat.toList_repr, Nat.toList_repr] at hrepr
  have hread := congrArg (fun digits => Nat.ofDigitChars 10 digits 0) hrepr
  exact ⟨by simpa using hread, (List.cons.inj hrest).2⟩

theorem opening_append_inj {tag tag' : UInt32} {fields fields' : List Value} {r r' : List Char}
    (h : (opening tag fields).toList ++ r = (opening tag' fields').toList ++ r') :
    tag = tag' ∧ fields.length = fields'.length ∧ r = r' := by
  rw [toList_opening, toList_opening] at h
  simp only [List.cons.injEq, true_and] at h
  obtain ⟨htag, hrest⟩ := repr_append_inj (by decide) h
  obtain ⟨hlength, hr⟩ := repr_append_inj (by decide) hrest
  exact ⟨UInt32.toNat_inj.mp htag, hlength, hr⟩

/-! ### Numbers and texts -/

theorem readable_number {x : Float} (hx : x.isNaN = false) : Readable (.number x) := by
  intro w _ hw r r' hr hr' h
  obtain ⟨c, rest, hc, hquote, htag⟩ := exists_cons_numberText x
  cases w with
  | number y =>
    have hword (z : Float) :
        ∀ c ∈ (numberText z).toList, decide (c ≠ ',' ∧ c ≠ ')') = true := fun c hmem =>
      decide_eq_true (ne_separator_of_mem_numberText hmem)
    have hend {r : List Char} (hr : Closes r) :
        ∀ c ∈ r.head?, decide (c ≠ ',' ∧ c ≠ ')') = false := by
      intro c hmem
      rcases hr c hmem with rfl | rfl <;> rfl
    obtain ⟨htext, hrest⟩ := append_inj_of_all (hword x) (hword y) (hend hr) (hend hr') h
    have hnumber := (numberText_eq_iff hx (isNaN_of_naNFree hw)).mp (String.toList_inj.mp htext)
    exact ⟨hnumber, hrest⟩
  | text t =>
    rw [toList_spelling_text, spelling, hc] at h
    exact absurd (List.cons.inj h).1 hquote
  | tagged u ys =>
    rw [toList_spelling_tagged, toList_opening, spelling, hc] at h
    exact absurd (List.cons.inj h).1 htag

theorem readable_text {s : String} (hs : '"' ∉ s.toList) : Readable (.text s) := by
  intro w hw _ r r' hr hr' h
  rw [toList_spelling_text] at h
  cases w with
  | number y =>
    obtain ⟨c, rest, hc, hquote, htag⟩ := exists_cons_numberText y
    rw [spelling, hc] at h
    exact absurd (List.cons.inj h).1.symm hquote
  | text t =>
    rw [toList_spelling_text] at h
    have hinside {s : String} (hs : '"' ∉ s.toList) :
        ∀ c ∈ s.toList, decide (c ≠ '"') = true := by
      intro c hmem
      rw [decide_eq_true_eq]
      rintro rfl
      exact hs hmem
    have hend (r : List Char) : ∀ c ∈ ('"' :: r).head?, decide (c ≠ '"') = false := by
      rintro c ⟨⟩
      rfl
    obtain ⟨htext, hrest⟩ := append_inj_of_all (hinside hs) (hinside (not_mem_of_quoteFree hw))
      (hend r) (hend r') (List.cons.inj h).2
    exact ⟨beq_iff_eq.mpr (String.toList_inj.mp htext), (List.cons.inj hrest).2⟩
  | tagged u ys =>
    rw [toList_spelling_tagged, toList_opening] at h
    cases (List.cons.inj h).1

/-! ### Fields -/

/-- What follows a field: the end of the value, or a separator and the other fields. -/
def afterField (others : List Value) (r : List Char) : List Char :=
  match others with
  | [] => ')' :: r
  | _ => ',' :: ' ' :: ((spellingAll others).toList ++ ')' :: r)

theorem closes_afterField (others : List Value) (r : List Char) : Closes (afterField others r) := by
  cases others with
  | nil =>
    rintro c ⟨⟩
    exact .inr rfl
  | cons v vs =>
    rintro c ⟨⟩
    exact .inl rfl

theorem toList_spellingAll_cons (v : Value) (vs : List Value) (r : List Char) :
    (spellingAll (v :: vs)).toList ++ ')' :: r = v.spelling.toList ++ afterField vs r := by
  cases vs with
  | nil => rfl
  | cons w ws =>
    rw [spellingAll]
    · rw [String.toList_append, String.toList_append, List.append_assoc, List.append_assoc]
      rfl
    · exact List.cons_ne_nil _ _

theorem spellingAll_of_afterField {vs ws : List Value} (hlength : vs.length = ws.length)
    {r r' : List Char} (h : afterField vs r = afterField ws r') :
    (spellingAll vs).toList ++ ')' :: r = (spellingAll ws).toList ++ ')' :: r' := by
  cases vs with
  | nil =>
    cases ws with
    | nil => exact h
    | cons w ws => cases hlength
  | cons v vs =>
    cases ws with
    | nil => cases hlength
    | cons w ws => exact (List.cons.inj (List.cons.inj h).2).2

theorem equalAll_of_readable {vs ws : List Value} (hlength : vs.length = ws.length)
    (hvs : ∀ v ∈ vs, Readable v) (hquotes : ∀ w ∈ ws, w.QuoteFree) (hnumbers : ∀ w ∈ ws, w.NaNFree)
    {r r' : List Char}
    (h : (spellingAll vs).toList ++ ')' :: r = (spellingAll ws).toList ++ ')' :: r') :
    equalAll vs ws = true ∧ r = r' := by
  induction vs generalizing ws with
  | nil =>
    cases ws with
    | nil => exact ⟨rfl, (List.cons.inj h).2⟩
    | cons w ws => cases hlength
  | cons v vs ih =>
    cases ws with
    | nil => cases hlength
    | cons w ws =>
      rw [List.forall_mem_cons] at hvs hquotes hnumbers
      rw [toList_spellingAll_cons, toList_spellingAll_cons] at h
      obtain ⟨hhead, hafter⟩ := hvs.1 w hquotes.1 hnumbers.1 _ _ (closes_afterField vs r)
        (closes_afterField ws r') h
      have hothers : vs.length = ws.length := Nat.succ.inj hlength
      obtain ⟨htail, hrest⟩ := ih hothers hvs.2 hquotes.2 hnumbers.2
        (spellingAll_of_afterField hothers hafter)
      exact ⟨Bool.and_eq_true_iff.mpr ⟨hhead, htail⟩, hrest⟩

theorem readable_tagged {tag : UInt32} {fields : List Value} (hfields : ∀ v ∈ fields, Readable v) :
    Readable (.tagged tag fields) := by
  intro w hquotes hnumbers r r' hr hr' h
  rw [toList_spelling_tagged] at h
  cases w with
  | number y =>
    obtain ⟨c, rest, hc, hquote, htag⟩ := exists_cons_numberText y
    rw [toList_opening, spelling, hc] at h
    exact absurd (List.cons.inj h).1.symm htag
  | text t =>
    rw [toList_opening, toList_spelling_text] at h
    cases (List.cons.inj h).1
  | tagged u ys =>
    rw [toList_spelling_tagged] at h
    obtain ⟨htag, hlength, hinside⟩ := opening_append_inj h
    obtain ⟨hequal, hrest⟩ := equalAll_of_readable hlength hfields (quoteFree_tagged.mp hquotes)
      (naNFree_tagged.mp hnumbers) hinside
    exact ⟨Bool.and_eq_true_iff.mpr ⟨beq_iff_eq.mpr htag, hequal⟩, hrest⟩

theorem readable {v : Value} (hquotes : v.QuoteFree) (hnumbers : v.NaNFree) : Readable v := by
  induction v using Value.induct with
  | number x => exact readable_number (isNaN_of_naNFree hnumbers)
  | text s => exact readable_text (not_mem_of_quoteFree hquotes)
  | tagged tag fields ih =>
    have hq := quoteFree_tagged.mp hquotes
    have hn := naNFree_tagged.mp hnumbers
    exact readable_tagged fun v hv => ih v hv (hq v hv) (hn v hv)

/-- Equal values have the same text. Values with the same text are equal, as long as no text inside
    them holds a double quote and no number inside them is NaN. -/
theorem toString_separates (v w : Value) :
    ((v == w) = true → v.toString = w.toString) ∧
    (v.QuoteFree → w.QuoteFree → v.NaNFree → w.NaNFree → v.toString = w.toString →
      (v == w) = true) := by
  rw [beq_eq_equal, toString_eq_spelling, toString_eq_spelling]
  refine ⟨spelling_eq_of_equal, fun hv hw hv' hw' h => ?_⟩
  have hend : Closes [] := by
    rintro c ⟨⟩
  exact (readable hv hv' w hw hw' [] [] hend hend (by rw [h])).1

/-- The two zeros next to a text that looks like the end of a value. -/
theorem toString_separates_zeros :
    let v : Value := .tagged 4 [.text "), tag_1_0(", .number 0]
    let w : Value := .tagged 4 [.text "), tag_1_0(", .number (-0)]
    v.QuoteFree ∧ w.QuoteFree ∧ v.NaNFree ∧ w.NaNFree ∧ v.toString = w.toString ∧
      (v == w) = true := by
  intro v w
  have hequal : (v == w) = true := by
    rw [beq_eq_equal]
    decide
  have htext := (toString_separates v w).1 hequal
  have hv : v.QuoteFree := by simp [v, QuoteFree, parts, partsAll]
  have hw : w.QuoteFree := by simp [w, QuoteFree, parts, partsAll]
  have hv' : v.NaNFree := by
    simp only [v, NaNFree, parts, partsAll]
    simp
    decide
  have hw' : w.NaNFree := by
    simp only [w, NaNFree, parts, partsAll]
    simp
    decide
  exact ⟨hv, hw, hv', hw', htext, (toString_separates v w).2 hv hw hv' hw' htext⟩

end Value

end TaggedEval
