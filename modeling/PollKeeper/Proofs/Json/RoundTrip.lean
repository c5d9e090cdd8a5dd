import PollKeeper.Json.Reader
import PollKeeper.Json.Writer
import PollKeeper.Proofs.Text.Numerals

/-!
# Written JSON is read back

Strings with their escapes, whole numbers with their signs, and then every value that holds no number
with a fraction or an exponent: what `write` makes of it, `value?` reads as that value and stops where
the written form stops.
-/

namespace PollKeeper.Json

open Text

section Strings

variable {c letter : Char} {rest : List Char}

theorem mem_shortEscapes (h : shortEscapes.lookup c = some letter) : (c, letter) ∈ shortEscapes := by
  obtain ⟨before, after, heq, -⟩ := List.lookup_eq_some_iff.mp h
  rw [heq]
  exact List.mem_append_right _ List.mem_cons_self

private theorem unescape?_of_mem :
    ∀ escape ∈ shortEscapes, escape.2 ≠ 'u' ∧ unescape? escape.2 = some escape.1 := by
  decide

theorem hexNumber?_hexDigit :
    ∀ n < 32, hexNumber? ['0', '0', hexDigit (n / 16), hexDigit n] = some n := by
  decide

private theorem pieces?_letter (hletter : letter ≠ 'u') (hc : unescape? letter = some c) :
    pieces? ('\\' :: letter :: rest) =
      (pieces? rest).map fun (pieces, rest) => (.char c :: pieces, rest) := by
  rw [pieces?, hc]
  · cases pieces? rest <;> rfl
  · exact fun _ _ _ _ _ h => absurd h hletter

private theorem pieces?_code {a b d e : Char} {code : Nat} (h : hexNumber? [a, b, d, e] = some code) :
    pieces? ('\\' :: 'u' :: a :: b :: d :: e :: rest) =
      (pieces? rest).map fun (pieces, rest) => (.ofCode code :: pieces, rest) := by
  rw [pieces?, h]
  cases pieces? rest <;> rfl

private theorem pieces?_plain (hquote : c ≠ '"') (hslash : c ≠ '\\') (hcontrol : ¬ c.toNat < 32) :
    pieces? (c :: rest) = (pieces? rest).map fun (pieces, rest) => (.char c :: pieces, rest) := by
  rw [pieces?]
  · exact if_neg (by simp [hcontrol, hslash])
  all_goals simp_all

private theorem pieces?_quoteChar (c : Char) (rest : List Char) :
    pieces? (quoteChar c ++ rest) =
      (pieces? rest).map fun (pieces, rest) => (.char c :: pieces, rest) := by
  rw [quoteChar]
  cases hshort : shortEscapes.lookup c with
  | some letter =>
    obtain ⟨hletter, hc⟩ := unescape?_of_mem _ (mem_shortEscapes hshort)
    exact pieces?_letter hletter hc
  | none =>
    by_cases hcontrol : c.toNat < 32
    · have hcode : Piece.ofCode c.toNat = .char c := by
        rw [Piece.ofCode, if_neg (by omega), if_neg (by omega), Char.ofNat_toNat]
      simp only [hcontrol, if_true, List.cons_append, List.nil_append]
      rw [pieces?_code (hexNumber?_hexDigit _ hcontrol), hcode]
    · have hquote : c ≠ '"' := by rintro rfl; cases hshort
      have hslash : c ≠ '\\' := by rintro rfl; cases hshort
      simp only [hcontrol, if_false, List.cons_append, List.nil_append]
      exact pieces?_plain hquote hslash hcontrol

private theorem pieces?_quoted (cs rest : List Char) :
    pieces? (cs.flatMap quoteChar ++ '"' :: rest) = some (cs.map .char, rest) := by
  induction cs with
  | nil => simp [pieces?]
  | cons c cs ih =>
    rw [List.flatMap_cons, List.append_assoc, pieces?_quoteChar, ih]
    rfl

private theorem join?_map_char (cs : List Char) : Piece.join? (cs.map .char) = some cs := by
  induction cs with
  | nil => rfl
  | cons c cs ih => rw [List.map_cons, Piece.join?, ih]; rfl

private theorem unquote?_quoted (s : String) (rest : List Char) :
    unquote? (s.toList.flatMap quoteChar ++ '"' :: rest) = some (some s, rest) := by
  simp [unquote?, pieces?_quoted, join?_map_char]

/-- A text is read as what it denotes, also if that is no string. -/
theorem writeText_eq (name : Option String) :
    ∃ body, writeText name = '"' :: body ∧ ∀ rest, unquote? (body ++ rest) = some (name, rest) := by
  cases name with
  | some s =>
    refine ⟨s.toList.flatMap quoteChar ++ ['"'], rfl, fun rest => ?_⟩
    rw [List.append_assoc]
    exact unquote?_quoted s rest
  | none => exact ⟨['\\', 'u', 'd', '8', '0', '0', '"'], rfl, fun rest => rfl⟩

end Strings

section Numbers

variable {rest : List Char}

/-- What may stand after a value: the end of the text, or what goes on in an array or an object. -/
def EndsValue (rest : List Char) : Prop := ∀ c ∈ rest.head?, c = ',' ∨ c = ']' ∨ c = '}'

theorem endsValue_cons {c : Char} (h : c = ',' ∨ c = ']' ∨ c = '}') : EndsValue (c :: rest) :=
  fun _ hhead => Option.some.inj hhead ▸ h

private theorem EndsValue.endsRun (h : EndsValue rest) : EndsRun rest := by
  intro c hc
  rcases h c hc with rfl | rfl | rfl <;> decide

private theorem EndsValue.fraction? (h : EndsValue rest) : fraction? rest = some ([], rest) := by
  rcases rest with - | ⟨c, rest⟩
  · rfl
  · rcases h c rfl with rfl | rfl | rfl <;> rfl

private theorem EndsValue.exponent? (h : EndsValue rest) : exponent? rest = some ([], rest) := by
  rcases rest with - | ⟨c, rest⟩
  · rfl
  · rcases h c rfl with rfl | rfl | rfl <;> rfl

private theorem no_leading_zero (n : Nat) :
    ¬ ((digits n).isEmpty ∨ (digits n).length > 1 ∧ (digits n).head? = some '0') := by
  rintro (hempty | ⟨hlong, hzero⟩)
  · exact digits_ne_nil n (List.isEmpty_iff.mp hempty)
  · by_cases hn : 0 < n
    · exact head?_digits hn hzero
    · obtain rfl : n = 0 := by omega
      exact absurd hlong (by decide)

theorem span_digits (n : Nat) (h : EndsValue rest) : (digits n ++ rest).span isDigit = (digits n, rest) :=
  span_isDigit (fun _ hc => isDigit_of_mem_digits hc) h.endsRun

theorem head?_digits_append (n : Nat) (rest : List Char) : (digits n ++ rest).head? ≠ some '-' := by
  cases hdigits : digits n with
  | nil => exact absurd hdigits (digits_ne_nil n)
  | cons c cs =>
    rintro ⟨⟩
    have hc : isDigit '-' = true := isDigit_of_mem_digits (hdigits ▸ List.mem_cons_self)
    exact absurd hc (by decide)

private theorem number?_of_span {cs : List Char} {n : Nat}
    (hspan : (if cs.head? = some '-' then cs.drop 1 else cs).span isDigit = (digits n, rest))
    (hzero : cs.head? = some '-' → n ≠ 0) (h : EndsValue rest) :
    number? cs = some (.integer (if cs.head? = some '-' then -n else n), rest) := by
  have hwhole : ¬ (cs.head? = some '-' ∧ n = 0) := fun hboth => hzero hboth.1 hboth.2
  simp only [number?, hspan, if_neg (no_leading_zero n), h.fraction?, h.exponent?, numberOf_digits,
    Option.bind_eq_bind, Option.bind_some]
  exact if_pos ⟨rfl, rfl, hwhole⟩

private theorem number?_signedDigits (n : Int) (h : EndsValue rest) :
    number? (signedDigits n ++ rest) = some (.integer n, rest) := by
  by_cases hn : n < 0
  · have hsign : signedDigits n ++ rest = '-' :: (digits n.natAbs ++ rest) := by
      rw [signedDigits, if_pos hn, List.cons_append]
    have hminus : ('-' :: (digits n.natAbs ++ rest)).head? = some '-' := rfl
    have hspan := span_digits n.natAbs h
    have hvalue : -(n.natAbs : Int) = n := by omega
    rw [hsign, number?_of_span (by rw [if_pos hminus]; exact hspan) (fun _ => by omega) h, if_pos hminus,
      hvalue]
  · have hsign : signedDigits n ++ rest = digits n.natAbs ++ rest := by rw [signedDigits, if_neg hn]
    have hplus := head?_digits_append n.natAbs rest
    have hspan := span_digits n.natAbs h
    have hvalue : (n.natAbs : Int) = n := by omega
    rw [hsign, number?_of_span (by rw [if_neg hplus]; exact hspan) (fun hminus => absurd hminus hplus) h,
      if_neg hplus, hvalue]

private theorem signedDigits_eq_cons (n : Int) :
    ∃ c cs, signedDigits n = c :: cs ∧ (c = '-' ∨ isDigit c = true) := by
  by_cases hn : n < 0
  · exact ⟨_, _, if_pos hn, .inl rfl⟩
  · rw [signedDigits, if_neg hn]
    cases hdigits : digits n.natAbs with
    | nil => exact absurd hdigits (digits_ne_nil _)
    | cons c cs => exact ⟨c, cs, rfl, .inr (isDigit_of_mem_digits (hdigits ▸ List.mem_cons_self))⟩

end Numbers

section Values

variable {j : Json} {c : Char} {fuel : Nat} {rest : List Char}

/-- A value is read back from what it is written as, wherever its written form stands. -/
structure IsReadBack (j : Json) : Prop where
  /-- What stands in front is no white space and closes no array. -/
  front : ∃ c cs, j.write = c :: cs ∧ isSpace c = false ∧ c ≠ ']'
  value? : ∀ fuel rest, j.write.length ≤ fuel → EndsValue rest →
    value? fuel (j.write ++ rest) = some (j, rest)

theorem IsReadBack.skipSpace (h : IsReadBack j) (rest : List Char) :
    skipSpace (j.write ++ rest) = j.write ++ rest := by
  obtain ⟨c, cs, heq, hspace, -⟩ := h.front
  rw [heq]
  exact List.dropWhile_cons_of_neg (by simp [hspace])

private theorem value?_scalar (harray : c ≠ '[') (hobject : c ≠ '{') :
    Json.value? (fuel + 1) (c :: rest) = scalar? (c :: rest) := by
  rw [Json.value?]
  · exact fun _ h => harray (List.cons.inj h).1
  · exact fun _ h => hobject (List.cons.inj h).1

private theorem scalar?_number (h : c = '-' ∨ isDigit c = true) :
    scalar? (c :: rest) = number? (c :: rest) := by
  rw [scalar?]
  all_goals
    rintro _ ⟨⟩
    exact absurd h (by decide)

theorem IsReadBack.of_scalar
    (hfront : ∃ c cs, j.write = c :: cs ∧ isSpace c = false ∧ c ∉ [']', '[', '{'])
    (h : ∀ rest, EndsValue rest → scalar? (j.write ++ rest) = some (j, rest)) : IsReadBack j := by
  obtain ⟨c, cs, heq, hspace, hc⟩ := hfront
  simp only [List.mem_cons, List.not_mem_nil, not_or] at hc
  refine ⟨⟨c, cs, heq, hspace, hc.1⟩, fun fuel rest hfuel hrest => ?_⟩
  rw [heq, List.length_cons] at hfuel
  obtain ⟨fuel, rfl⟩ := Nat.exists_eq_add_one.mpr (by omega : 0 < fuel)
  have hscalar := h rest hrest
  rw [heq, List.cons_append] at hscalar ⊢
  rw [value?_scalar hc.2.1 hc.2.2.1, hscalar]

theorem isReadBack_null : IsReadBack null :=
  .of_scalar ⟨'n', _, rfl, rfl, by decide⟩ fun _ _ => rfl

theorem isReadBack_bool (b : Bool) : IsReadBack (.bool b) := by
  cases b with
  | true => exact .of_scalar ⟨'t', _, rfl, rfl, by decide⟩ fun _ _ => rfl
  | false => exact .of_scalar ⟨'f', _, rfl, rfl, by decide⟩ fun _ _ => rfl

theorem isSpace_of_isDigit (h : isDigit c = true) : isSpace c = false := by
  by_contra hspace
  simp only [isSpace, Bool.not_eq_false, Bool.or_eq_true, decide_eq_true_eq] at hspace
  rcases hspace with ((rfl | rfl) | rfl) | rfl <;> exact absurd h (by decide)

theorem isReadBack_integer (n : Int) : IsReadBack (.integer n) := by
  obtain ⟨c, cs, heq, hc⟩ := signedDigits_eq_cons n
  refine .of_scalar ⟨c, cs, heq, ?_, fun hmem => ?_⟩ fun rest hrest => ?_
  · rcases hc with rfl | hc
    · rfl
    · exact isSpace_of_isDigit hc
  · simp only [List.mem_cons, List.not_mem_nil, or_false] at hmem
    rcases hmem with rfl | rfl | rfl <;> exact absurd hc (by decide)
  · rw [write, heq, List.cons_append, scalar?_number hc, ← List.cons_append, ← heq,
      number?_signedDigits n hrest]

theorem isReadBack_text (s : Option String) : IsReadBack (.text s) := by
  obtain ⟨body, heq, hbody⟩ := writeText_eq s
  refine .of_scalar ⟨'"', body, heq, rfl, by decide⟩ fun rest _ => ?_
  rw [write, heq, List.cons_append, scalar?, hbody]
  rfl

theorem writeItems_eq_cons {items : List Json} (hne : items ≠ []) (h : ∀ j ∈ items, IsReadBack j) :
    ∃ c cs, writeItems items = c :: cs ∧ isSpace c = false ∧ c ≠ ']' := by
  obtain ⟨item, others, rfl⟩ := List.exists_cons_of_ne_nil hne
  obtain ⟨c, cs, heq, hspace, hc⟩ := (h item List.mem_cons_self).front
  cases others with
  | nil => exact ⟨c, cs ++ [']'], by rw [writeItems, heq, List.cons_append], hspace, hc⟩
  | cons next others =>
    refine ⟨c, cs ++ ',' :: writeItems (next :: others), ?_, hspace, hc⟩
    rw [writeItems, heq, List.cons_append]
    exact List.cons_ne_nil _ _

theorem skipSpace_writeItems {items : List Json} (hne : items ≠ []) (h : ∀ j ∈ items, IsReadBack j) :
    skipSpace (writeItems items ++ rest) = writeItems items ++ rest := by
  obtain ⟨c, cs, heq, hspace, -⟩ := writeItems_eq_cons hne h
  rw [heq]
  exact List.dropWhile_cons_of_neg (by simp [hspace])

section Item

variable {item : Json} (h : IsReadBack item) (hfuel : item.write.length ≤ fuel)

include h hfuel

theorem items?_last : items? (fuel + 1) (item.write ++ ']' :: rest) = some ([item], rest) := by
  have hvalue := h.value? fuel (']' :: rest) hfuel (endsValue_cons (by decide))
  have hbracket : skipSpace (']' :: rest) = ']' :: rest := rfl
  rw [items?]
  simp only [Option.bind_eq_bind, Option.bind_some, hvalue, hbracket]

theorem items?_next :
    items? (fuel + 1) (item.write ++ ',' :: rest) =
      (items? fuel (skipSpace rest)).bind fun found => some (item :: found.1, found.2) := by
  have hvalue := h.value? fuel (',' :: rest) hfuel (endsValue_cons (by decide))
  have hcomma : skipSpace (',' :: rest) = ',' :: rest := rfl
  rw [items?]
  simp only [Option.bind_eq_bind, Option.bind_some, hvalue, hcomma]

end Item

theorem items?_writeItems {items : List Json} (hne : items ≠ []) (h : ∀ j ∈ items, IsReadBack j)
    (fuel : Nat) (rest : List Char) (hfuel : (writeItems items).length ≤ fuel) :
    items? fuel (writeItems items ++ rest) = some (items, rest) := by
  induction items generalizing fuel with
  | nil => exact absurd rfl hne
  | cons item others ih =>
    have hitem := h item List.mem_cons_self
    have hothers : ∀ j ∈ others, IsReadBack j := fun j hj => h j (List.mem_cons_of_mem _ hj)
    cases others with
    | nil =>
      rw [writeItems, List.length_append, List.length_singleton] at hfuel
      obtain ⟨fuel, rfl⟩ := Nat.exists_eq_add_one.mpr (by omega : 0 < fuel)
      rw [writeItems, List.append_assoc, List.singleton_append, items?_last hitem (by omega)]
    | cons next others =>
      have hwrite : writeItems (item :: next :: others) =
          item.write ++ ',' :: writeItems (next :: others) := by
        rw [writeItems]
        exact List.cons_ne_nil _ _
      rw [hwrite, List.length_append, List.length_cons] at hfuel
      obtain ⟨fuel, rfl⟩ := Nat.exists_eq_add_one.mpr (by omega : 0 < fuel)
      rw [hwrite, List.append_assoc, List.cons_append, items?_next hitem (by omega),
        skipSpace_writeItems (List.cons_ne_nil _ _) hothers,
        ih (List.cons_ne_nil _ _) hothers fuel (by omega), Option.bind_some]

theorem isReadBack_array {items : List Json} (h : ∀ j ∈ items, IsReadBack j) :
    IsReadBack (.array items) := by
  refine ⟨⟨'[', writeItems items, rfl, rfl, by decide⟩, fun fuel rest hfuel _ => ?_⟩
  rw [write, List.length_cons] at hfuel
  obtain ⟨fuel, rfl⟩ := Nat.exists_eq_add_one.mpr (by omega : 0 < fuel)
  rw [write, List.cons_append, Json.value?]
  by_cases hne : items = []
  · subst hne
    rfl
  · obtain ⟨c, cs, heq, -, hc⟩ := writeItems_eq_cons hne h
    have hitems := items?_writeItems hne h fuel rest (by omega)
    rw [skipSpace_writeItems hne h, heq, List.cons_append]
    rw [heq, List.cons_append] at hitems
    split
    · next hbracket => exact absurd (List.cons.inj hbracket).1 hc
    · rw [hitems]
      rfl

theorem writeMembers_eq_cons {members : List (Option String × Json)} (hne : members ≠ []) :
    ∃ cs, writeMembers members = '"' :: cs := by
  obtain ⟨⟨name, value⟩, others, rfl⟩ := List.exists_cons_of_ne_nil hne
  obtain ⟨body, heq, -⟩ := writeText_eq name
  cases others with
  | nil => exact ⟨_, by rw [writeMembers, heq]; rfl⟩
  | cons next others =>
    refine ⟨body ++ ':' :: value.write ++ ',' :: writeMembers (next :: others), ?_⟩
    rw [writeMembers, heq]
    · rfl
    · exact List.cons_ne_nil _ _

theorem skipSpace_writeMembers {members : List (Option String × Json)} (hne : members ≠ []) :
    skipSpace (writeMembers members ++ rest) = writeMembers members ++ rest := by
  obtain ⟨cs, heq⟩ := writeMembers_eq_cons hne
  rw [heq]
  rfl

section Member

variable {name : Option String} {value : Json} (h : IsReadBack value) (hfuel : value.write.length ≤ fuel)

include h hfuel

private theorem members?_last :
    members? (fuel + 1) (writeText name ++ ':' :: (value.write ++ '}' :: rest)) =
      some ([(name, value)], rest) := by
  obtain ⟨body, heq, hbody⟩ := writeText_eq name
  have hcolon : skipSpace (':' :: (value.write ++ '}' :: rest)) = ':' :: (value.write ++ '}' :: rest) := rfl
  have hbrace : skipSpace ('}' :: rest) = '}' :: rest := rfl
  have hvalue := h.value? fuel ('}' :: rest) hfuel (endsValue_cons (by decide))
  rw [heq, List.cons_append, members?, hbody]
  simp only [Option.bind_eq_bind, Option.bind_some, hcolon, h.skipSpace, hvalue, hbrace]

private theorem members?_next :
    members? (fuel + 1) (writeText name ++ ':' :: (value.write ++ ',' :: rest)) =
      (members? fuel (skipSpace rest)).bind fun found => some ((name, value) :: found.1, found.2) := by
  obtain ⟨body, heq, hbody⟩ := writeText_eq name
  have hcolon : skipSpace (':' :: (value.write ++ ',' :: rest)) = ':' :: (value.write ++ ',' :: rest) := rfl
  have hcomma : skipSpace (',' :: rest) = ',' :: rest := rfl
  have hvalue := h.value? fuel (',' :: rest) hfuel (endsValue_cons (by decide))
  rw [heq, List.cons_append, members?, hbody]
  simp only [Option.bind_eq_bind, Option.bind_some, hcolon, h.skipSpace, hvalue, hcomma]

end Member

private theorem members?_writeMembers {members : List (Option String × Json)} (hne : members ≠ [])
    (h : ∀ m ∈ members, IsReadBack m.2) (fuel : Nat) (rest : List Char)
    (hfuel : (writeMembers members).length ≤ fuel) :
    members? fuel (writeMembers members ++ rest) = some (members, rest) := by
  induction members generalizing fuel with
  | nil => exact absurd rfl hne
  | cons member others ih =>
    obtain ⟨name, value⟩ := member
    have hvalue : IsReadBack value := h _ List.mem_cons_self
    have hothers : ∀ m ∈ others, IsReadBack m.2 := fun m hm => h m (List.mem_cons_of_mem _ hm)
    cases others with
    | nil =>
      have hwrite : writeMembers [(name, value)] ++ rest =
          writeText name ++ ':' :: (value.write ++ '}' :: rest) := by
        simp [writeMembers]
      have hlength : (writeMembers [(name, value)]).length =
          (writeText name).length + value.write.length + 2 := by
        simp [writeMembers]
        omega
      obtain ⟨fuel, rfl⟩ := Nat.exists_eq_add_one.mpr (by omega : 0 < fuel)
      rw [hwrite, members?_last hvalue (by omega)]
    | cons next others =>
      have hwrite : writeMembers ((name, value) :: next :: others) ++ rest =
          writeText name ++ ':' :: (value.write ++ ',' :: (writeMembers (next :: others) ++ rest)) := by
        simp [writeMembers]
      have hlength : (writeMembers ((name, value) :: next :: others)).length =
          (writeText name).length + value.write.length + (writeMembers (next :: others)).length + 2 := by
        simp [writeMembers]
        omega
      obtain ⟨fuel, rfl⟩ := Nat.exists_eq_add_one.mpr (by omega : 0 < fuel)
      rw [hwrite, members?_next hvalue (by omega), skipSpace_writeMembers (List.cons_ne_nil _ _),
        ih (List.cons_ne_nil _ _) hothers fuel (by omega), Option.bind_some]

theorem isReadBack_object {members : List (Option String × Json)} (h : ∀ m ∈ members, IsReadBack m.2) :
    IsReadBack (.object members) := by
  refine ⟨⟨'{', writeMembers members, rfl, rfl, by decide⟩, fun fuel rest hfuel _ => ?_⟩
  rw [write, List.length_cons] at hfuel
  obtain ⟨fuel, rfl⟩ := Nat.exists_eq_add_one.mpr (by omega : 0 < fuel)
  rw [write, List.cons_append, Json.value?]
  by_cases hne : members = []
  · subst hne
    rfl
  · obtain ⟨cs, heq⟩ := writeMembers_eq_cons hne
    have hmembers := members?_writeMembers hne h fuel rest (by omega)
    rw [skipSpace_writeMembers hne, heq, List.cons_append]
    rw [heq, List.cons_append] at hmembers
    split
    · next hbrace => exact absurd (List.cons.inj hbrace).1 (by decide)
    · rw [hmembers]
      rfl

/-- A value without numbers that have a fraction or an exponent. -/
inductive Plain : Json → Prop where
  | null : Plain .null
  | bool (b : Bool) : Plain (.bool b)
  | integer (n : Int) : Plain (.integer n)
  | text (s : Option String) : Plain (.text s)
  | array {items : List Json} (h : ∀ j ∈ items, Plain j) : Plain (.array items)
  | object {members : List (Option String × Json)} (h : ∀ m ∈ members, Plain m.2) :
    Plain (.object members)

theorem Plain.isReadBack (h : Plain j) : IsReadBack j := by
  induction h with
  | null => exact isReadBack_null
  | bool b => exact isReadBack_bool b
  | integer n => exact isReadBack_integer n
  | text s => exact isReadBack_text s
  | array _ ih => exact isReadBack_array ih
  | object _ ih => exact isReadBack_object ih

/-- Reading the compact text of a value gives the value. -/
theorem read?_render (h : Plain j) : read? j.render = some j := by
  have hback := h.isReadBack
  have hspace := hback.skipSpace []
  have hvalue := hback.value? (j.write.length + 1) [] (by omega) (fun _ hc => by cases hc)
  rw [List.append_nil] at hspace hvalue
  simp only [read?, render, String.toList_ofList, hspace, hvalue, Option.bind_eq_bind, Option.bind_some]
  rfl

end Values

end PollKeeper.Json
