import Lifeline.Proofs.Json.Strings

/-!
# JSON is read back as it was written

`Json.parse?` inverts `Json.print` on the data that JSON writes without loss (`Lossless`,
`parse?_print`). Each value is read back with as much fuel as it has characters (`Reads`); for
lists and records this follows from their parts.
-/

namespace Lifeline.Json

open Text.Packed (join)

/-- Data that JSON writes without loss: there is neither a floating-point number nor a date in it,
and the keys of each map are different texts. -/
inductive Lossless : Data → Prop
  | null : Lossless .null
  | bool (b : Bool) : Lossless (.bool b)
  | int (n : Int) : Lossless (.int n)
  | text (s : String) : Lossless (.text s)
  | list {items : List Data} (values : ∀ x ∈ items, Lossless x) : Lossless (.list items)
  | record {entries : List (String × Data)} (keys : (entries.map (·.1)).Nodup)
      (values : ∀ e ∈ entries, Lossless e.2) : Lossless (.record entries)

/-- The value is read back, given a unit of fuel for each of its characters, up to what ends it. -/
def Reads (d : Data) : Prop :=
  ∀ (fuel : Nat) (rest : Input), (print d).toList.length ≤ fuel → Ended rest →
    readValue? fuel ((print d).toList ++ rest) = some (d, rest)

/-! ## What is written -/

theorem printItems_eq (items : List Data) : printItems items = items.map print := by
  induction items with
  | nil => rfl
  | cons x items ih => rw [printItems, ih, List.map_cons]

/-- An entry of a record, as it is written. -/
def printEntry (e : String × Data) : String := quote e.1 ++ ":" ++ print e.2

theorem printEntries_record (entries : List (String × Data)) :
    printEntries (entries.map fun e => (.text e.1, e.2)) = entries.map printEntry := by
  induction entries with
  | nil => rfl
  | cons e entries ih => rw [List.map_cons, printEntries, ih]; rfl

theorem toList_printEntry (e : String × Data) : (printEntry e).toList =
    '"' :: (e.1.toList.flatMap escapeChar ++ '"' :: ':' :: (print e.2).toList) := by
  simp [printEntry]

theorem toList_join_cons (x y : String) (xs : List String) :
    (join "," (x :: y :: xs)).toList = x.toList ++ ',' :: (join "," (y :: xs)).toList := by
  simp [join]

/-- What is joined starts with the first of the texts. -/
theorem exists_toList_join (x : String) (xs : List String) :
    ∃ tail, (join "," (x :: xs)).toList = x.toList ++ tail := by
  cases xs with
  | nil => exact ⟨[], by simp [join]⟩
  | cons y xs => exact ⟨_, toList_join_cons x y xs⟩

theorem toList_print_list (items : List Data) :
    (print (.list items)).toList = '[' :: ((join "," (items.map print)).toList ++ [']']) := by
  rw [print, printItems_eq]
  simp

theorem toList_print_record (entries : List (String × Data)) :
    (print (.record entries)).toList =
      '\x7b' :: ((join "," (entries.map printEntry)).toList ++ ['\x7d']) := by
  rw [Data.record, print, printEntries_record]
  simp

theorem toList_print_natural (n : Nat) : (print (.int n)).toList = Nat.toDigits 10 n := by
  change (toString n).toList = _
  rw [Nat.toString_eq_repr, Nat.toList_repr]

theorem toList_print_negative (n : Nat) :
    (print (.int (.negSucc n))).toList = '-' :: Nat.toDigits 10 (n + 1) := by
  change ("-" ++ toString (n + 1)).toList = _
  rw [String.toList_append, Nat.toString_eq_repr, Nat.toList_repr]
  rfl

/-- A value starts with a character that neither is a blank nor closes a list. -/
theorem exists_head_print {d : Data} (hd : Lossless d) :
    ∃ c cs, (print d).toList = c :: cs ∧ isSpace c = false ∧ c ≠ ']' := by
  cases hd with
  | null => exact ⟨'n', _, rfl, rfl, by decide⟩
  | bool b => cases b <;> exact ⟨_, _, rfl, rfl, by decide⟩
  | int n =>
    cases n with
    | ofNat n =>
      obtain ⟨c, cs, hcs⟩ := List.exists_cons_of_ne_nil (Nat.toDigits_ne_nil (n := n) (b := 10))
      have hdigit : c.isDigit = true :=
        Nat.isDigit_of_mem_toDigits (by decide) (by decide) (hcs ▸ List.mem_cons_self)
      refine ⟨c, cs, (toList_print_natural n).trans hcs, ?_, ?_⟩
      · by_contra hspace
        simp only [isSpace, Bool.not_eq_false, Bool.or_eq_true, beq_iff_eq] at hspace
        rcases hspace with ((rfl | rfl) | rfl) | rfl <;> exact absurd hdigit (by decide)
      · rintro rfl
        exact absurd hdigit (by decide)
    | negSucc n => exact ⟨'-', _, toList_print_negative n, rfl, by decide⟩
  | text s => exact ⟨'"', _, toList_quote s, rfl, by decide⟩
  | list _ => exact ⟨'[', _, toList_print_list _, rfl, by decide⟩
  | record _ _ => exact ⟨'\x7b', _, toList_print_record _, rfl, by decide⟩

theorem skip_print {d : Data} (hd : Lossless d) (rest : Input) :
    skip ((print d).toList ++ rest) = (print d).toList ++ rest := by
  obtain ⟨c, cs, hcs, hspace, -⟩ := exists_head_print hd
  rw [hcs, List.cons_append, skip, List.dropWhile_cons_of_neg (by simp [hspace])]

/-! ## Scalars -/

theorem Reads.word {d : Data} {word : List Char} (hword : (print d).toList = word)
    (hpos : word ≠ []) (h : ∀ fuel rest, readValue? (fuel + 1) (word ++ rest) = some (d, rest)) :
    Reads d := by
  intro fuel rest hfuel _
  rw [hword] at hfuel ⊢
  have := List.length_pos_of_ne_nil hpos
  obtain ⟨fuel, rfl⟩ := Nat.exists_eq_succ_of_ne_zero (by omega : fuel ≠ 0)
  exact h fuel rest

theorem reads_null : Reads .null := Reads.word rfl (by decide) fun _ _ => rfl

theorem reads_bool (b : Bool) : Reads (.bool b) := by
  cases b
  · exact Reads.word rfl (by decide) fun _ _ => rfl
  · exact Reads.word rfl (by decide) fun _ _ => rfl

theorem reads_text (s : String) : Reads (.text s) := by
  refine Reads.word (toList_quote s) (by simp) fun fuel rest => ?_
  rw [List.cons_append, List.append_assoc, List.singleton_append, readValue?]
  simp only [beq_self_eq_true, if_true, readString?_quote, Option.map_some]

/-- A digit starts no string, list, map or negative number. -/
theorem readValue?_digit {c : Char} (hc : c.isDigit = true) (fuel : Nat) (cs : Input) :
    readValue? (fuel + 1) (c :: cs) =
      (readNumber? false (c :: cs)).orElse fun _ => readWord? (c :: cs) := by
  have hne {k : Char} (hk : k.isDigit = false) : (c == k) = false := by
    rw [beq_eq_false_iff_ne]
    rintro rfl
    exact absurd hc (by simp [hk])
  rw [readValue?, hne (by decide), hne (by decide), hne (by decide), hne (by decide)]
  rfl

theorem reads_int (n : Int) : Reads (.int n) := by
  intro fuel rest hfuel hrest
  cases n with
  | ofNat n =>
    change (print (.int n)).toList.length ≤ fuel at hfuel
    change readValue? fuel ((print (.int n)).toList ++ rest) = _
    rw [toList_print_natural] at hfuel ⊢
    obtain ⟨c, cs, hcs⟩ := List.exists_cons_of_ne_nil (Nat.toDigits_ne_nil (n := n) (b := 10))
    have hdigit : c.isDigit = true :=
      Nat.isDigit_of_mem_toDigits (by decide) (by decide) (hcs ▸ List.mem_cons_self)
    have hnumber := readNumber?_natural false n hrest
    rw [hcs] at hfuel hnumber ⊢
    obtain ⟨fuel, rfl⟩ := Nat.exists_eq_succ_of_ne_zero (Nat.ne_zero_of_lt hfuel)
    rw [List.cons_append] at hnumber ⊢
    rw [readValue?_digit hdigit, hnumber]
    rfl
  | negSucc n =>
    rw [toList_print_negative] at hfuel ⊢
    obtain ⟨fuel, rfl⟩ := Nat.exists_eq_succ_of_ne_zero (Nat.ne_zero_of_lt hfuel)
    rw [List.cons_append, readValue?]
    simp only [readNumber?_natural true (n + 1) hrest]
    rfl

/-! ## Lists -/

theorem skip_bracket (rest : Input) : skip (']' :: rest) = ']' :: rest := rfl

theorem skip_comma (rest : Input) : skip (',' :: rest) = ',' :: rest := rfl

theorem skip_colon (rest : Input) : skip (':' :: rest) = ':' :: rest := rfl

theorem skip_brace (rest : Input) : skip ('\x7d' :: rest) = '\x7d' :: rest := rfl

theorem skip_quote (rest : Input) : skip ('"' :: rest) = '"' :: rest := rfl

/-- The items of a list are read back one after the other, by induction on the list. -/
theorem readItems?_join {x : Data} {items : List Data}
    (hitems : ∀ y ∈ x :: items, Lossless y ∧ Reads y) :
    ∀ (fuel : Nat) (done : List Data) (rest : Input),
      (join "," ((x :: items).map print)).toList.length < fuel →
      readItems? fuel done ((join "," ((x :: items).map print)).toList ++ ']' :: rest) =
        some (.list (done.reverse ++ x :: items), rest) := by
  induction items generalizing x with
  | nil =>
    intro fuel done rest hfuel
    obtain ⟨fuel, rfl⟩ := Nat.exists_eq_succ_of_ne_zero (Nat.ne_zero_of_lt hfuel)
    have hx := (hitems x List.mem_cons_self).2 fuel (']' :: rest) (by
      simpa [join] using Nat.le_of_lt_succ hfuel) (ended_bracket rest)
    simp only [List.map_cons, List.map_nil, join]
    rw [readItems?, hx]
    simp [skip_bracket]
  | cons y items ih =>
    intro fuel done rest hfuel
    obtain ⟨fuel, rfl⟩ := Nat.exists_eq_succ_of_ne_zero (Nat.ne_zero_of_lt hfuel)
    have hjoin : (join "," ((x :: y :: items).map print)).toList =
        (print x).toList ++ ',' :: (join "," ((y :: items).map print)).toList :=
      toList_join_cons _ _ _
    rw [hjoin] at hfuel ⊢
    simp only [List.length_append, List.length_cons] at hfuel
    have hx := (hitems x List.mem_cons_self).2 fuel
      (',' :: ((join "," ((y :: items).map print)).toList ++ ']' :: rest)) (by omega)
      (ended_comma _)
    have hskip : skip ((join "," ((y :: items).map print)).toList ++ ']' :: rest) =
        (join "," ((y :: items).map print)).toList ++ ']' :: rest := by
      obtain ⟨tail, htail⟩ := exists_toList_join (print y) (items.map print)
      rw [List.map_cons, htail, List.append_assoc]
      exact skip_print (hitems y (by simp)).1 _
    have hrest := ih (fun z hz => hitems z (List.mem_cons_of_mem _ hz)) fuel (x :: done) rest
      (by omega)
    rw [List.append_assoc, List.cons_append, readItems?, hx]
    simp only [Option.bind_eq_bind, Option.bind_some, skip_comma, hskip, hrest]
    simp

theorem reads_list {items : List Data} (hitems : ∀ x ∈ items, Lossless x ∧ Reads x) :
    Reads (.list items) := by
  intro fuel rest hfuel _
  rw [toList_print_list] at hfuel ⊢
  obtain ⟨fuel, rfl⟩ := Nat.exists_eq_succ_of_ne_zero (Nat.ne_zero_of_lt hfuel)
  simp only [List.length_cons, List.length_append, List.length_nil] at hfuel
  cases items with
  | nil => rfl
  | cons x items =>
    have hread := readItems?_join hitems fuel [] rest (by omega)
    obtain ⟨c, cs, hcs⟩ : ∃ c cs, (join "," ((x :: items).map print)).toList = c :: cs ∧
        isSpace c = false ∧ c ≠ ']' := by
      obtain ⟨c, cs, hx, hspace, hne⟩ := exists_head_print (hitems x List.mem_cons_self).1
      obtain ⟨tail, htail⟩ := exists_toList_join (print x) (items.map print)
      exact ⟨c, cs ++ tail, by rw [List.map_cons, htail, hx, List.cons_append], hspace, hne⟩
    rw [List.cons_append, List.append_assoc, List.singleton_append, readValue?]
    rw [hcs.1] at hread ⊢
    have hskip : skip (c :: cs ++ ']' :: rest) = c :: cs ++ ']' :: rest := by
      rw [List.cons_append, skip, List.dropWhile_cons_of_neg (by simp [hcs.2.1])]
    simp only [hskip]
    rw [if_neg (by decide), if_pos (by decide)]
    split
    · rename_i heq
      exact absurd (List.cons.inj heq).1 hcs.2.2
    · exact hread

/-! ## Records -/

/-- Entries under different keys are kept as they are. -/
theorem foldl_put {entries done : Data.Entries} (h : ((done ++ entries).map (·.1)).Nodup) :
    entries.foldl (fun es e => Data.put es e.1 e.2) done = done ++ entries := by
  induction entries generalizing done with
  | nil => simp
  | cons e entries ih =>
    have hnew : done.any (·.1 == e.1) = false := by
      rw [List.any_eq_false]
      intro e' he' hkey
      rw [List.map_append, List.nodup_append] at h
      exact h.2.2 _ (List.mem_map_of_mem he') _ (by simp) (beq_iff_eq.1 hkey)
    rw [List.foldl_cons, Data.put, hnew, if_neg (by decide), ih (by simpa using h)]
    simp

theorem ofEntries_record {entries : List (String × Data)} (hkeys : (entries.map (·.1)).Nodup) :
    Data.ofEntries (entries.map fun e => (.text e.1, e.2)) = .record entries := by
  rw [Data.ofEntries, foldl_put, List.nil_append, Data.record]
  have hmap : (entries.map fun e => (Key.text e.1, e.2)).map (·.1) =
      (entries.map (·.1)).map Key.text := by simp
  rw [List.nil_append, hmap]
  exact List.Pairwise.map _ (fun _ _ hne heq => hne (Key.text.inj heq)) hkeys

/-- The entries of a record are read back one after the other, by induction on the record. -/
theorem readEntries?_join {e : String × Data} {entries : List (String × Data)}
    (hentries : ∀ e' ∈ e :: entries, Lossless e'.2 ∧ Reads e'.2) :
    ∀ (fuel : Nat) (done : Data.Entries) (rest : Input),
      (join "," ((e :: entries).map printEntry)).toList.length < fuel →
      readEntries? fuel done ((join "," ((e :: entries).map printEntry)).toList ++ '\x7d' :: rest) =
        some (Data.ofEntries (done.reverse ++ (e :: entries).map fun e => (.text e.1, e.2)),
          rest) := by
  induction entries generalizing e with
  | nil =>
    intro fuel done rest hfuel
    obtain ⟨fuel, rfl⟩ := Nat.exists_eq_succ_of_ne_zero (Nat.ne_zero_of_lt hfuel)
    have hjoin : (join "," ([e].map printEntry)).toList = (printEntry e).toList := by simp [join]
    rw [hjoin, toList_printEntry] at hfuel ⊢
    simp only [List.length_cons, List.length_append] at hfuel
    obtain ⟨hlossless, hreads⟩ := hentries e List.mem_cons_self
    have hvalue := hreads fuel ('\x7d' :: rest) (by omega) (ended_brace rest)
    simp only [List.cons_append, List.append_assoc]
    rw [readEntries?, readString?_quote]
    simp only [Option.bind_eq_bind, Option.bind_some, skip_colon, skip_print hlossless, hvalue,
      skip_brace]
    simp
  | cons e' entries ih =>
    intro fuel done rest hfuel
    obtain ⟨fuel, rfl⟩ := Nat.exists_eq_succ_of_ne_zero (Nat.ne_zero_of_lt hfuel)
    have hjoin : (join "," ((e :: e' :: entries).map printEntry)).toList =
        (printEntry e).toList ++ ',' :: (join "," ((e' :: entries).map printEntry)).toList :=
      toList_join_cons _ _ _
    rw [hjoin, toList_printEntry] at hfuel ⊢
    simp only [List.length_cons, List.length_append] at hfuel
    obtain ⟨hlossless, hreads⟩ := hentries e List.mem_cons_self
    have hvalue := hreads fuel
      (',' :: ((join "," ((e' :: entries).map printEntry)).toList ++ '\x7d' :: rest)) (by omega)
      (ended_comma _)
    have hskip : skip ((join "," ((e' :: entries).map printEntry)).toList ++ '\x7d' :: rest) =
        (join "," ((e' :: entries).map printEntry)).toList ++ '\x7d' :: rest := by
      obtain ⟨tail, htail⟩ := exists_toList_join (printEntry e') (entries.map printEntry)
      rw [List.map_cons, htail, toList_printEntry, List.cons_append, List.cons_append, skip_quote]
    have hrest := ih (fun z hz => hentries z (List.mem_cons_of_mem _ hz)) fuel
      ((.text e.1, e.2) :: done) rest (by omega)
    simp only [List.cons_append, List.append_assoc]
    rw [readEntries?, readString?_quote]
    simp only [Option.bind_eq_bind, Option.bind_some, skip_colon, skip_print hlossless, hvalue,
      skip_comma, hskip, hrest]
    simp

theorem reads_record {entries : List (String × Data)} (hkeys : (entries.map (·.1)).Nodup)
    (hentries : ∀ e ∈ entries, Lossless e.2 ∧ Reads e.2) : Reads (.record entries) := by
  intro fuel rest hfuel _
  rw [toList_print_record] at hfuel ⊢
  obtain ⟨fuel, rfl⟩ := Nat.exists_eq_succ_of_ne_zero (Nat.ne_zero_of_lt hfuel)
  simp only [List.length_cons, List.length_append, List.length_nil] at hfuel
  cases entries with
  | nil => rfl
  | cons e entries =>
    have hread := readEntries?_join hentries fuel [] rest (by omega)
    rw [List.reverse_nil, List.nil_append, ofEntries_record hkeys] at hread
    obtain ⟨cs, hcs⟩ : ∃ cs, (join "," ((e :: entries).map printEntry)).toList = '"' :: cs := by
      obtain ⟨tail, htail⟩ := exists_toList_join (printEntry e) (entries.map printEntry)
      exact ⟨_, by rw [List.map_cons, htail, toList_printEntry, List.cons_append]⟩
    rw [hcs] at hread ⊢
    rw [List.cons_append, List.append_assoc, List.singleton_append, readValue?]
    simp only [List.cons_append, skip_quote]
    exact hread

/-! ## Documents -/

/-- **Every value that is written without loss is read back.** -/
theorem reads_of_lossless {d : Data} (hd : Lossless d) : Reads d := by
  induction hd with
  | null => exact reads_null
  | bool b => exact reads_bool b
  | int n => exact reads_int n
  | text s => exact reads_text s
  | list values ih => exact reads_list fun x hx => ⟨values x hx, ih x hx⟩
  | record keys values ih => exact reads_record keys fun e he => ⟨values e he, ih e he⟩

/-- **Parsing inverts printing.** -/
theorem parse?_print {d : Data} (hd : Lossless d) : parse? (print d) = some d := by
  have hskip : skip (print d).toList = (print d).toList := by simpa using skip_print hd []
  have hread := reads_of_lossless hd ((print d).toList.length + 1) [] (by omega) ended_nil
  rw [List.append_nil] at hread
  rw [parse?, hskip]
  simp [hread, skip]

end Lifeline.Json
