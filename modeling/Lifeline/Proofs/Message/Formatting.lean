import Lifeline.Diagram.Reader
import Lifeline.Proofs.Message.Slots
import Lifeline.Proofs.Name.Letters
import Lifeline.Proofs.Name.Patterns
import Mathlib.Data.List.Basic

/-!
# Messages in place of their templates

The message of a raise is a template: it is filled with a value for each placeholder. What stands
around the placeholders is read as a template too, and not as the message has it.

* `SlotShows.spec`: a slot that is filled shows no brace, and as many letters as one value at most.
* `fillPieces_cases`: the ways a template is filled, piece by piece.
* `fillPieces_count`: the braces that are left when a template is filled.
* `fill_iff_plain`: a message is filled with the values of its placeholders, whatever they are, if
  and only if there is no brace around the placeholders.
-/

set_option autoImplicit false

namespace Lifeline

namespace Template

open Message

variable {K fuel : Nat} {cs rest index path value shown out : List Char} {values : Values}
  {fillLayout : List Char → Except TemplateError (List Char)} {s : Slot}

/-! ## Values of one letter -/

/-- At most `K` times the letter `a`. -/
def Letters (K : Nat) (value : List Char) : Prop := value.length ≤ K ∧ ∀ c ∈ value, c = 'a'

/-- No brace, and at most `K` times the letter `a`. -/
def Shows (K : Nat) (value : List Char) : Prop := Braceless value ∧ value.count 'a' ≤ K

theorem Letters.shows (h : Letters K value) : Shows K value :=
  ⟨fun c hc => h.2 c hc ▸ rfl, Nat.le_trans List.count_le_length h.1⟩

/-- Values that are made of one letter, under names without braces. -/
structure Filler (K : Nat) (values : Values) : Prop where
  names : ∀ x ∈ values, Braceless x.1.toList
  letters : ∀ x ∈ values, Letters K x.2.toList
  bound : numberBound ≤ K

theorem charAt_spec {w : List Char} (h : charAt value index = .ok w) (hvalue : Letters K value) :
    Letters K w ∧ Braceless index := by
  simp only [charAt, bind_ok, Prod.exists] at h
  obtain ⟨n, rest, hnumber, h⟩ := h
  split at h
  · rename_i n heq
    obtain ⟨rfl, rfl⟩ := by simpa only [Prod.mk.injEq] using heq
    split at h
    · rename_i c hc
      obtain rfl := Except.ok.inj h
      obtain ⟨hlt, rfl⟩ := List.getElem?_eq_some_iff.1 hc
      refine ⟨⟨Nat.le_trans (Nat.succ_le_of_lt (Nat.zero_lt_of_lt hlt)) hvalue.1, fun c hc => ?_⟩,
        (readNumber_spec hnumber).2 (by simp)⟩
      obtain rfl := List.mem_singleton.1 hc
      exact hvalue.2 _ (List.getElem_mem hlt)
    · cases h
  · cases h

theorem cut_spec {sep : Char} : ∀ {cs before after : List Char},
    Text.cut sep cs = (before, some after) → cs = before ++ sep :: after
  | [], _, _, h => by cases h
  | c :: cs, before, after, h => by
    simp only [Text.cut] at h
    split at h
    · rename_i hc
      obtain ⟨rfl, hafter⟩ := Prod.mk.inj h
      obtain rfl := Option.some.inj hafter
      rw [beq_iff_eq.1 hc, List.nil_append]
    · obtain ⟨rfl, hafter⟩ := Prod.mk.inj h
      rw [List.cons_append, ← cut_spec (Prod.ext rfl hafter)]

theorem access_spec (hfuel : path.length ≤ fuel) (h : access fuel value path = .ok shown)
    (hvalue : Letters K value) : Letters K shown ∧ Braceless path := by
  fun_induction access fuel value path with
  | case1 => exact ⟨Except.ok.inj h ▸ hvalue, by simp⟩
  | case2 path _ hpath => exact absurd (List.length_eq_zero_iff.1 (Nat.le_zero.1 hfuel)) hpath
  | case3 | case4 | case6 => cases h
  | case5 fuel value _ index rest hcut ih =>
    obtain rfl := cut_spec hcut
    obtain ⟨value', hchar, h⟩ := bind_ok.1 h
    obtain ⟨hvalue', hindex⟩ := charAt_spec hchar hvalue
    have hlength : rest.length ≤ fuel := by
      simp only [List.length_cons, List.length_append] at hfuel
      omega
    obtain ⟨hshown, hrest⟩ := ih value' hlength h hvalue'
    exact ⟨hshown, by simp [hindex, hrest, isBrace]⟩

theorem lookUp_spec {name : List Char} (h : lookUp values name = .ok value)
    (hvalues : Filler K values) : Letters K value ∧ Braceless name := by
  simp only [lookUp] at h
  split at h
  · obtain ⟨_, _, h⟩ := bind_ok.1 h
    cases h
  split at h
  · cases h
  rename_i text htext
  obtain ⟨before, after, heq, -⟩ := List.lookup_eq_some_iff.1 htext
  have hmem : (_, text) ∈ values := heq ▸ List.mem_append_right _ List.mem_cons_self
  obtain ⟨hvalue, hpath⟩ := access_spec (Nat.le_refl _) h (hvalues.letters _ hmem)
  have hhead := hvalues.names _ hmem
  rw [String.toList_ofList] at hhead
  refine ⟨hvalue, ?_⟩
  rw [← @List.takeWhile_append_dropWhile _ (fun c => c != '.' && c != '[') name]
  exact braceless_append.2 ⟨hhead, hpath⟩

/-! ## What a slot shows -/

theorem flatMap_letters {f : Char → List Char} (hf : f 'a' = ['a']) :
    ∀ {value : List Char}, (∀ c ∈ value, c = 'a') → value.flatMap f = value
  | [], _ => rfl
  | c :: value, h => by
    obtain ⟨rfl, hvalue⟩ := List.forall_mem_cons.1 h
    rw [List.flatMap_cons, hf, flatMap_letters hf hvalue, List.singleton_append]

theorem Letters.quoteFor (h : Letters K value) : Text.quoteFor value = '\'' := by
  have hnot : '\'' ∉ value := fun hmem => absurd (h.2 _ hmem) (by decide)
  simp [Text.quoteFor, hnot]

theorem Letters.shows_quote (h : Letters K value) : Shows K ('\'' :: value ++ ['\'']) := by
  obtain ⟨hvalue, hcount⟩ := h.shows
  refine ⟨by simp [hvalue, isBrace], ?_⟩
  simpa using hcount

theorem convert_spec {conversion : Option Char} (h : convert conversion value = .ok shown)
    (hvalue : Letters K value) :
    Shows K shown ∧ ∀ c, conversion = some c → isBrace c = false := by
  have hquoted : ∀ p : Char → Bool, p 'a' = true →
      value.flatMap (Text.quotedChar p '\'') = value := fun p hp =>
    flatMap_letters (by simp [Text.quotedChar, hp]) hvalue.2
  unfold convert at h
  split at h
  · obtain rfl := Except.ok.inj h
    exact ⟨hvalue.shows, fun _ hc => by cases hc⟩
  · obtain rfl := Except.ok.inj h
    exact ⟨hvalue.shows, by rintro c ⟨⟩; rfl⟩
  · obtain rfl := Except.ok.inj h
    refine ⟨?_, by rintro c ⟨⟩; rfl⟩
    rw [Text.quoted, hvalue.quoteFor, hquoted _ (by decide)]
    exact hvalue.shows_quote
  · obtain rfl := Except.ok.inj h
    refine ⟨?_, by rintro c ⟨⟩; rfl⟩
    rw [Text.quotedAscii, hvalue.quoteFor, hquoted _ (by decide)]
    exact hvalue.shows_quote
  · cases h

theorem apply_spec {l : Layout} (hfill : isBrace l.fill = false) (hwidth : l.width ≤ K)
    (hvalue : Shows K value) : Shows K (l.apply value) := by
  obtain ⟨shown, before, after, hshown, hle, heq⟩ : ∃ shown before after, shown.Sublist value ∧
      before + after ≤ l.width - shown.length ∧
        l.apply value = List.replicate before l.fill ++ shown ++ List.replicate after l.fill := by
    refine ⟨_, _, _, ?_, ?_, rfl⟩
    · split
      · exact List.take_sublist _ _
      · exact List.Sublist.refl _
    · split <;> omega
  have hpad : ∀ n, Braceless (List.replicate n l.fill) := fun n c hc =>
    (List.eq_of_mem_replicate hc).symm ▸ hfill
  have hcount : shown.count 'a' ≤ K := Nat.le_trans (hshown.count_le _) hvalue.2
  have hlength := @List.count_le_length _ _ 'a' shown
  have hbefore := @List.count_le_length _ _ 'a' (List.replicate before l.fill)
  have hafter := @List.count_le_length _ _ 'a' (List.replicate after l.fill)
  have hbrace : Braceless shown := fun c hc => hvalue.1 c (hshown.subset hc)
  rw [heq]
  refine ⟨by simp [hpad, hbrace], ?_⟩
  rw [List.length_replicate] at hbefore hafter
  rw [List.count_append, List.count_append]
  omega

/-- What a slot shows in its place: its value after the conversion, under its layout. -/
def SlotShows (values : Values) (fillLayout : List Char → Except TemplateError (List Char))
    (s : Slot) (shown : List Char) : Prop :=
  ∃ text value layout, lookUp values s.name = .ok text ∧ convert s.conversion text = .ok value ∧
    (if s.layout.contains '{' then fillLayout s.layout else .ok s.layout) = .ok layout ∧
    (if layout.isEmpty then .ok value else (·.apply value) <$> readLayout layout) = .ok shown

/-- A slot shows no brace, and between its own braces they are balanced. -/
theorem SlotShows.spec (hvalues : Filler K values) (hlayout : ∀ {layout filled : List Char},
      Balanced layout → fillLayout layout = .ok filled → Balanced filled)
    (hread : readSlot cs = .ok (s, rest)) (h : SlotShows values fillLayout s shown) :
    Shows K shown ∧ ∃ slot, Balanced slot ∧ cs = slot ++ '}' :: rest := by
  obtain ⟨hbalanced, mark, rfl, hmark⟩ := readSlot_spec hread
  obtain ⟨text, value, layout, htext, hvalue, hlayout', h⟩ := h
  obtain ⟨hletters, hname⟩ := lookUp_spec htext hvalues
  obtain ⟨hshows, hconversion⟩ := convert_spec hvalue hletters
  constructor
  · have hfilled : Balanced layout := by
      split at hlayout'
      · exact hlayout hbalanced hlayout'
      · exact Except.ok.inj hlayout' ▸ hbalanced
    split at h
    · exact Except.ok.inj h ▸ hshows
    · obtain ⟨l, hl, rfl⟩ := map_ok.1 h
      obtain ⟨hfill, hwidth⟩ := readLayout_spec hl hfilled
      exact apply_spec hfill (Nat.le_trans hwidth hvalues.bound) hshows
  · refine ⟨_, ?_, rfl⟩
    have hmark : Braceless mark := fun c hc => by
      cases hb : isBrace c with
      | false => rfl
      | true => exact hb ▸ hconversion c (hmark c hc hb)
    exact (balanced_of_braceless (braceless_append.2 ⟨hname, hmark⟩)).append hbalanced

/-! ## Piece by piece -/

theorem bind_ite_ok {ε α β : Type} {p : Prop} [Decidable p] {x y : Except ε α}
    {f : α → Except ε β} {b : β} : (if p then x >>= f else y >>= f) = .ok b ↔
      ∃ a, (if p then x else y) = .ok a ∧ f a = .ok b := by
  split <;> exact bind_ok

theorem fillPieces_ok {c : Char}
    (h : fillPieces values fillLayout (fuel + 1) (c :: cs) = .ok out) :
    ∃ rest out', fillPieces values fillLayout fuel rest = .ok out' ∧
      ((∃ d, next c cs = .ok (.char d, rest) ∧ out = d :: out') ∨
        ∃ s shown, next c cs = .ok (.slot s, rest) ∧ SlotShows values fillLayout s shown ∧
          out = shown ++ out') := by
  simp only [fillPieces, bind_ok, Prod.exists] at h
  obtain ⟨piece, rest, hnext, h⟩ := h
  split at h
  · rename_i heq
    obtain ⟨rfl, rfl⟩ := by simpa only [Prod.mk.injEq] using heq
    simp only [bind_ok, pure_ok] at h
    obtain ⟨out', hout, rfl⟩ := h
    exact ⟨rest, out', hout, .inl ⟨_, hnext, rfl⟩⟩
  · rename_i heq
    obtain ⟨rfl, rfl⟩ := by simpa only [Prod.mk.injEq] using heq
    simp only [bind_ok, bind_ite_ok, pure_ok] at h
    obtain ⟨text, htext, value, hvalue, layout, hlayout, shown, hshown, out', hout, rfl⟩ := h
    exact ⟨rest, out', hout, .inr ⟨_, shown, hnext,
      ⟨text, value, layout, htext, hvalue, hlayout, hshown⟩, rfl⟩⟩

/-- **A template is filled** piece by piece: a character stands for itself, a doubled brace for one,
and a slot for what it shows. -/
theorem fillPieces_cases {P : List Char → List Char → Prop} (nil : P [] [])
    (char : ∀ {c cs out}, isBrace c = false → P cs out → P (c :: cs) (c :: out))
    (brace : ∀ {c cs out}, isBrace c = true → P cs out → P (c :: c :: cs) (c :: out))
    (slot : ∀ {s cs rest shown out}, readSlot cs = .ok (s, rest) →
      SlotShows values fillLayout s shown → P rest out → P ('{' :: cs) (shown ++ out)) :
    ∀ {fuel : Nat} {cs out : List Char}, cs.length ≤ fuel →
      fillPieces values fillLayout fuel cs = .ok out → P cs out
  | fuel, [], out, _, h => by
    obtain rfl : [] = out := by cases fuel <;> exact Except.ok.inj h
    exact nil
  | 0, _ :: _, _, hfuel, _ => absurd hfuel (by simp)
  | fuel + 1, c :: cs, out, hfuel, h => by
    have hfuel : cs.length ≤ fuel := Nat.le_of_succ_le_succ hfuel
    obtain ⟨rest, out', hout, ⟨d, hnext, rfl⟩ | ⟨s, shown, hnext, hshown, rfl⟩⟩ := fillPieces_ok h
    · rcases next_spec hnext with ⟨_, ⟨⟩, _⟩ | ⟨⟨⟩, hbrace, rfl⟩ | ⟨⟨⟩, hbrace, rfl⟩
      · exact brace hbrace (fillPieces_cases nil char brace slot
          (Nat.le_of_succ_le hfuel) hout)
      · exact char hbrace (fillPieces_cases nil char brace slot hfuel hout)
    · rcases next_spec hnext with ⟨_, ⟨⟩, rfl, hread⟩ | ⟨⟨⟩, _⟩ | ⟨⟨⟩, _⟩
      obtain ⟨-, mark, rfl, -⟩ := readSlot_spec hread
      refine slot hread hshown (fillPieces_cases nil char brace slot ?_ hout)
      simp only [List.length_append, List.length_cons] at hfuel
      omega

/-! ## Braces and letters that are left -/

variable (hvalues : Filler K values)
include hvalues

/-- A layout whose braces are balanced is filled with balanced braces. -/
theorem balanced_of_fillFrom {layout filled : List Char} (hlayout : Balanced layout)
    (h : fillFrom values 1 layout = .ok filled) : Balanced filled := by
  have hcount : layout.count '{' + 2 * filled.count '}' =
      layout.count '}' + 2 * filled.count '{' := by
    refine fillPieces_cases (P := fun cs out => cs.count '{' + 2 * out.count '}' =
      cs.count '}' + 2 * out.count '{') rfl ?_ ?_ ?_ (Nat.le_refl _) h
    · intro c cs out hc ih
      obtain ⟨hopen, hclose⟩ := not_isBrace_iff.1 hc
      rw [List.count_cons_of_ne hopen, List.count_cons_of_ne hopen, List.count_cons_of_ne hclose,
        List.count_cons_of_ne hclose, ih]
    · intro c cs out hc ih
      obtain rfl | rfl := isBrace_iff.1 hc
      all_goals
        simp
        omega
    · intro s cs rest shown out hread hshown ih
      obtain ⟨⟨hshown, -⟩, slot, hslot, rfl⟩ := hshown.spec hvalues (fun _ h => by cases h) hread
      have hshown := balanced_of_braceless hshown
      unfold Balanced at hshown hslot
      simp [hshown, hslot]
      omega
  unfold Balanced at hlayout ⊢
  omega

/-- **What filling leaves of the braces**: for each slot there are two less, and of a doubled brace
one is left. A slot shows no more letters than one value may have. -/
theorem fillPieces_count (h : fillFrom values 2 cs = .ok out) :
    ∃ slots, 2 * braces out + 2 * slots ≤ braces cs ∧
      out.count 'a' ≤ K * slots + cs.count 'a' := by
  refine fillPieces_cases (P := fun cs out => ∃ slots, 2 * braces out + 2 * slots ≤ braces cs ∧
      out.count 'a' ≤ K * slots + cs.count 'a') ⟨0, by simp⟩ ?_ ?_ ?_ (Nat.le_refl _) h
  · rintro c cs out hc ⟨slots, hbraces, hcount⟩
    refine ⟨slots, ?_, ?_⟩
    · rw [braces_cons, braces_cons, hc]
      simpa using hbraces
    · rw [List.count_cons, List.count_cons]
      omega
  · rintro c cs out hc ⟨slots, hbraces, hcount⟩
    refine ⟨slots, ?_, ?_⟩
    · rw [braces_cons, braces_cons, braces_cons, if_pos hc]
      omega
    · rw [List.count_cons, List.count_cons, List.count_cons]
      omega
  · rintro s cs rest shown out hread hshown ⟨slots, hbraces, hcount⟩
    obtain ⟨⟨hshown, hletters⟩, slot, -, rfl⟩ := hshown.spec hvalues
      (balanced_of_fillFrom hvalues) hread
    refine ⟨slots + 1, ?_, ?_⟩
    · have hopen : isBrace '{' = true := rfl
      have hclose : isBrace '}' = true := rfl
      rw [braces_append, braces_eq_zero_iff.2 hshown, braces_cons, braces_append, braces_cons,
        if_pos hopen, if_pos hclose]
      omega
    · have hrest : rest.count 'a' ≤ ('{' :: (slot ++ '}' :: rest)).count 'a' := by
        refine List.Sublist.count_le _ (.cons _ ?_)
        exact (List.sublist_cons_self _ _).trans (List.sublist_append_right _ _)
      rw [List.count_append, Nat.mul_succ]
      omega

end Template

namespace Message

open Template

variable {c : Char} {cs name rest : List Char} {fuel : Nat} {values : Values}

theorem isName_of_mem : ∀ {name : List Char}, name ∈ placeholdersIn cs → IsName name := by
  induction cs using placeholder_cases with
  | nil => intro name h; cases h
  | char c cs hbegins ih => rwa [placeholdersIn_char hbegins]
  | name name rest hname ih =>
    rw [placeholdersIn_name hname]
    intro x hx
    rcases List.mem_cons.1 hx with rfl | hx
    · exact hname
    · exact ih hx

/-! ## Placeholders as slots -/

theorem next_char (h : isBrace c = false) : next c cs = .ok (.char c, cs) := by
  obtain ⟨hopen, hclose⟩ := not_isBrace_iff.1 h
  unfold next
  split
  all_goals first | rfl | contradiction

theorem splitName_name (h : ∀ c ∈ name, nameBeforeBrace?.isPart c = true) (rest : List Char) :
    splitName false (name ++ '}' :: rest) = .ok (name, '}', rest) := by
  induction name with
  | nil => rfl
  | cons c name ih =>
    obtain ⟨hc, hname⟩ := List.forall_mem_cons.1 h
    obtain ⟨hbrace, -, hbracket, hcolon, hmark⟩ := isPart_ne hc
    obtain ⟨hopen, hclose⟩ := not_isBrace_iff.1 hbrace
    simp [splitName, hopen, hclose, hcolon, hmark, beq_false_of_ne hbracket, ih hname]

theorem next_name (h : IsName name) (rest : List Char) :
    next '{' (name ++ '}' :: rest) = .ok (.slot { name }, rest) := by
  have hread : readSlot (name ++ '}' :: rest) = .ok ({ name }, rest) := by
    rw [readSlot, splitName_name h.2]
    rfl
  obtain ⟨d, hd, -⟩ := h.1
  obtain ⟨more, rfl⟩ := List.head?_eq_some_iff.1 hd
  have hbrace := h.braceless d List.mem_cons_self
  rw [List.cons_append] at hread ⊢
  unfold next
  split
  · rename_i heq _; exact absurd heq (by decide)
  · rename_i heq _; exact absurd heq (by decide)
  · rename_i heq
    rw [(List.cons.inj heq).1] at hbrace
    cases hbrace
  · rename_i heq; cases heq
  · rw [hread]
    rfl
  · rename_i hopen _ _ _; exact absurd rfl hopen

theorem isDecimal_of_isPart (h : nameBeforeBrace?.isPart c = true) :
    Text.isDecimal c = c.isDigit := by
  have hlt : c.toNat < 128 := by
    rcases Bool.or_eq_true_iff.1 h with halnum | hline
    · exact Text.toNat_lt_of_isAsciiAlnum halnum
    · exact beq_iff_eq.1 hline ▸ by decide
  rw [Text.isDecimal, if_pos hlt]

theorem isPlain_name (h : IsName name) {names : List String} (hmem : String.ofList name ∈ names) :
    Slot.isPlain names { name } = true := by
  obtain ⟨⟨d, hd, hdigit⟩, hall⟩ := h
  have hd := List.mem_of_mem_head? hd
  have hdecimal : name.all Text.isDecimal = false :=
    List.all_eq_false.2 ⟨d, hd, by simp [isDecimal_of_isPart (hall d hd), hdigit]⟩
  have hpath : ∀ c ∈ name, c ≠ '.' ∧ c ≠ '[' := fun c hc =>
    ⟨(isPart_ne (hall c hc)).2.1, (isPart_ne (hall c hc)).2.2.1⟩
  simpa [Slot.isPlain, hdecimal, hmem] using hpath

/-- Where no brace is around the placeholders, the pieces of the message are filled one by one. -/
theorem fillPieces_substitute {σ : String → String} {names : List String}
    (fillLayout : List Char → Except TemplateError (List Char)) :
    ∀ fuel, cs.length ≤ fuel → Braceless (substituteFrom (fun _ => []) 0 cs) →
      (∀ name ∈ placeholdersIn cs, String.ofList name ∈ names) →
      fillPieces (names.map fun name => (name, σ name)) fillLayout fuel cs =
        .ok (substituteFrom (fun name => (σ (.ofList name)).toList) 0 cs) := by
  induction cs using placeholder_cases with
  | nil => intro fuel _ _ _; cases fuel <;> rfl
  | char c cs hbegins ih =>
    intro fuel hfuel hplain hnames
    obtain ⟨fuel, rfl⟩ := Nat.exists_eq_add_one.2 (Nat.zero_lt_of_lt hfuel)
    rw [substituteFrom_char hbegins] at hplain ⊢
    rw [placeholdersIn_char hbegins] at hnames
    obtain ⟨hc, hplain⟩ := braceless_cons.1 hplain
    have ht := ih fuel (Nat.le_of_succ_le_succ hfuel) hplain hnames
    simp [fillPieces, next_char hc, ht, bind, Except.bind, pure, Except.pure]
  | name name rest hname ih =>
    intro fuel hfuel hplain hnames
    obtain ⟨fuel, rfl⟩ := Nat.exists_eq_add_one.2 (Nat.zero_lt_of_lt hfuel)
    rw [substituteFrom_name hname, List.nil_append] at hplain
    rw [placeholdersIn_name hname] at hnames
    obtain ⟨hmem, hnames⟩ := List.forall_mem_cons.1 hnames
    have hfuel : rest.length ≤ fuel := by
      simp only [List.length_cons, List.length_append] at hfuel
      omega
    have ht := ih fuel hfuel hplain hnames
    have hkeys : ∀ x ∈ names, x ∈ (names.map fun name => (name, σ name)).map (·.1) := by simp
    obtain ⟨-, -, hvalue⟩ := lookUp_plain hkeys (isPlain_name hname hmem)
    have hfilled : Piece.filled (names.map fun name => (name, σ name)) (.slot { name }) =
        (σ (.ofList name)).toList := by
      simp only [Piece.filled, List.lookup_graph σ hmem, Option.getD_some]
    rw [hfilled] at hvalue
    rw [substituteFrom_name hname]
    simp [fillPieces, next_name hname, hvalue, convert, ht, bind, Except.bind, pure, Except.pure]

/-! ## Messages that are filled -/

theorem filler_placeholders {K : Nat} (hK : numberBound ≤ K) (template : String) :
    Filler K ((placeholders template).map fun name => (name, .ofList (List.replicate K 'a'))) where
  names x hx := by
    obtain ⟨name, hname, rfl⟩ := List.mem_map.1 hx
    obtain ⟨cs, hcs, rfl⟩ := List.mem_map.1 (List.mem_eraseDups.1 hname)
    rw [String.toList_ofList]
    exact (isName_of_mem hcs).braceless
  letters x hx := by
    obtain ⟨name, -, rfl⟩ := List.mem_map.1 hx
    rw [String.toList_ofList]
    exact ⟨by simp, fun c hc => List.eq_of_mem_replicate hc⟩
  bound := hK

/-- A message that is filled with long values of one letter has no braces around its placeholders:
each placeholder has a slot, as the letters tell, and the slots leave no brace. -/
theorem plain_of_fill {template : String} {K : Nat}
    (hK : numberBound + template.toList.length < K)
    (h : fill template
      ((placeholders template).map fun name => (name, .ofList (List.replicate K 'a'))) =
        .ok (substitute (fun _ => .ofList (List.replicate K 'a')) template)) : Plain template := by
  obtain ⟨out, hout, heq⟩ := map_ok.1 h
  have heq := String.ofList_injective heq
  simp only [String.toList_ofList] at heq
  subst heq
  obtain ⟨slots, hbraces, hcount⟩ := fillPieces_count
    (filler_placeholders (K := K) (by omega) template) hout
  have hsplit := braces_eq (σ := fun _ => List.replicate K 'a')
    (fun _ => braces_eq_zero_iff.2 fun c hc => List.eq_of_mem_replicate hc ▸ rfl) template.toList
  have hplain := braces_eq (σ := fun _ => []) (fun _ => rfl) template.toList
  have hvalues := le_count_substituteFrom 'a' K template.toList
  have hletters : template.toList.count 'a' < K :=
    Nat.lt_of_le_of_lt (Nat.le_trans List.count_le_length (Nat.le_add_left _ _)) hK
  have hslots : (placeholdersIn template.toList).length ≤ slots := by
    refine Nat.le_of_lt_succ (Nat.lt_of_mul_lt_mul_left (a := K) ?_)
    rw [Nat.mul_succ]
    omega
  rw [Plain, ← braces_eq_zero_iff]
  omega

theorem fill_of_plain {template : String} (h : Plain template) (σ : String → String) :
    fill template ((placeholders template).map fun name => (name, σ name)) =
      .ok (substitute σ template) := by
  have hnames : ∀ name ∈ placeholdersIn template.toList,
      String.ofList name ∈ placeholders template := fun name hname =>
    List.mem_eraseDups.2 (List.mem_map_of_mem hname)
  rw [fill, fillFrom, fillPieces_substitute _ _ (Nat.le_refl _) h hnames]
  rfl

/-- **A message is filled** with the values of its placeholders, whatever they are, if and only if
every brace of it belongs to a placeholder. -/
theorem fill_iff_plain (template : String) :
    (∀ σ : String → String, fill template ((placeholders template).map fun name => (name, σ name)) =
      .ok (substitute σ template)) ↔ Plain template :=
  ⟨fun h => plain_of_fill (Nat.lt_succ_self _) (h _), fill_of_plain⟩

example : Plain "Order \x7bid\x7d is late" := by decide +kernel

/-- A message with braces that belong to no placeholder: a part of a value is no name. -/
def latePart : String := "Order \x7border.id\x7d is late"

/-- A diagram that raises with that message. -/
def lateOrder : String :=
  "[-> A : run(x)\nA -> B : load(x)\nA -> A : <<throws>> Missing(\"" ++ latePart ++ "\")\n"

theorem parse_lateOrder : ∃ d ∈ (Diagram.parse lateOrder).toOption,
    .raise ⟨3, none, "A", "Missing", some latePart⟩ ∈ d.elements := by
  unfold Diagram.parse Line.scan lateOrder latePart
  rw [String.toList_append, String.toList_append, String.toList_ofList, String.toList_ofList,
    String.toList_ofList]
  decide +kernel

/-- The message names no value, and it is not filled. -/
theorem not_fill_lateOrder : ¬∀ (source : String) (d : Diagram) (r : Raise) (message : String),
    Diagram.parse source = .ok d → .raise r ∈ d.elements → r.message = some message →
      ∀ σ : String → String,
        fill message ((placeholders message).map fun name => (name, σ name)) =
          .ok (substitute σ message) := by
  intro h
  obtain ⟨d, hd, hraise⟩ := parse_lateOrder
  have hfill := h _ d _ latePart (toOption_eq_some.1 hd) hraise rfl id
  have hfails : (fill latePart ((placeholders latePart).map fun name => (name, id name))).isOk =
      false := by decide +kernel
  rw [hfill] at hfails
  cases hfails

end Message

end Lifeline
