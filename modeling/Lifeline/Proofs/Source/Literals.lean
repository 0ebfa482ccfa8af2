import Lifeline.Proofs.Diagram.ArgumentLists
import Lifeline.Proofs.Json.Roundtrip
import Lifeline.Proofs.Source.Sequences
import Lifeline.Proofs.Source.Texts

/-!
# Literals and comments

What is written for each character of a text stays within double quotes (`contained_escapeChar`),
and so does what is written for a text: a reader of literals gets as far as the quote behind it
(`Contained.closes`). Guards stand in comments with a blank for each run of blanks, and line ends
are blanks, so a note on a guard has none (`isLineBreak_noteText`).

**`text_stays`**: no text of a diagram gets out of the literal or the comment that it is written in.
-/

set_option autoImplicit false

namespace Lifeline

namespace Label

variable {quote : Char} {xs ys : List Char}

theorem Escaped.append (hx : Escaped quote xs) (hy : Escaped quote ys) :
    Escaped quote (xs ++ ys) := by
  induction hx with
  | nil => exact hy
  | char other single _ ih => exact .char other single ih
  | pair line _ ih => exact .pair line ih

/-- Without quotes and backslashes there is nothing to escape. -/
theorem escaped_of_forall (h : ∀ c ∈ xs, c ≠ quote ∧ c ≠ '\\') : Escaped quote xs := by
  induction xs with
  | nil => exact .nil
  | cons c xs ih =>
    obtain ⟨⟨hquote, hslash⟩, hxs⟩ := List.forall_mem_cons.1 h
    exact .char hquote hslash (ih hxs)

end Label

namespace Json

/-! ## Between double quotes -/

/-- Text that stays between double quotes: a backslash takes the character after it along, no other
quote is in it, and all of it is printable ASCII. -/
structure Contained (cs : List Char) : Prop where
  escaped : Label.Escaped '"' cs
  printable : ∀ c ∈ cs, 32 ≤ c.toNat ∧ c.toNat < 127

theorem contained_nil : Contained [] := ⟨.nil, by simp⟩

theorem Contained.append {xs ys : List Char} (hx : Contained xs) (hy : Contained ys) :
    Contained (xs ++ ys) where
  escaped := hx.escaped.append hy.escaped
  printable c hc := (List.mem_append.1 hc).elim (hx.printable c) (hy.printable c)

/-- The quote behind contained text is the one that closes it. -/
theorem Contained.closes {cs : List Char} (h : Contained cs) (rest : List Char) :
    Label.readQuoted? '"' (cs ++ '"' :: rest) = some (cs, rest) :=
  Label.readQuoted?_append (by decide) h.escaped rest

theorem mem_hex {c : Char} : ∀ {width n : Nat}, c ∈ Text.hex width n →
    ∃ d < 16, c = Text.hexDigit d
  | 0, _, h => by cases h
  | width + 1, n, h => by
    rcases List.mem_append.1 h with h | h
    · exact mem_hex h
    · exact ⟨n % 16, Nat.mod_lt n (by decide), List.mem_singleton.1 h⟩

theorem contained_escapeUnit (n : Nat) : Contained (escapeUnit n) := by
  have hdigit : ∀ d < 16, (Text.hexDigit d ≠ '"' ∧ Text.hexDigit d ≠ '\\') ∧
      32 ≤ (Text.hexDigit d).toNat ∧ (Text.hexDigit d).toNat < 127 := by
    decide
  have hhex : ∀ c ∈ Text.hex 4 n, (c ≠ '"' ∧ c ≠ '\\') ∧ 32 ≤ c.toNat ∧ c.toNat < 127 := by
    intro c hc
    obtain ⟨d, hd, rfl⟩ := mem_hex hc
    exact hdigit d hd
  refine ⟨.pair (by decide) (Label.escaped_of_forall fun c hc => (hhex c hc).1), ?_⟩
  rintro c (_ | ⟨_, _ | ⟨_, hc⟩⟩)
  · decide
  · decide
  · exact (hhex c hc).2

/-- A backslash and one character of ASCII. -/
theorem contained_pair {c : Char} (h : 32 ≤ c.toNat ∧ c.toNat < 127) : Contained ['\\', c] where
  escaped := .pair (by rintro rfl; exact absurd h.1 (by decide)) .nil
  printable := by simpa using h

/-- **What is written for a character** stays between the quotes. -/
theorem contained_escapeChar (c : Char) : Contained (escapeChar c) := by
  unfold escapeChar
  split_ifs with hquote hslash hline hreturn htab hback hfeed hplain hunit
  -- the seven escapes of one character, then what is written as itself, then one unit and two
  iterate 7
    · exact contained_pair (by decide)
  · rw [beq_iff_eq] at hquote hslash
    rw [Bool.and_eq_true, decide_eq_true_eq, decide_eq_true_eq] at hplain
    exact ⟨.char hquote hslash .nil, by simpa using hplain⟩
  · exact contained_escapeUnit c.toNat
  · exact (contained_escapeUnit _).append (contained_escapeUnit _)

theorem contained_escape (s : String) : Contained (escape s).toList := by
  rw [escape, String.toList_ofList]
  induction s.toList with
  | nil => exact contained_nil
  | cons c cs ih =>
    rw [List.flatMap_cons]
    exact (contained_escapeChar c).append ih

end Json

/-- The template of a note on a guard has one slot, inside the brackets of a comment. -/
theorem TemplateKey.stubGuardNote_pieces : stubGuardNote.pieces =
    "        # drives branch [".toList.map .char ++ .slot { name := "guard".toList } ::
      "]\n".toList.map .char := by
  unfold pieces
  dsimp only [builtin, Template.slotText]
  -- The kernel is slow to decode a text, so it gets the characters.
  repeat rw [String.toList_append]
  repeat rw [String.toList_ofList]
  decide +kernel

namespace Source

open Tests (Group)

/-! ## Notes on guards -/

/-- A guard as its note has it: the words of the guard, with a blank between them. -/
def noteText (guard : String) : String :=
  .ofList (Text.join [' '] (Text.runs (!Text.isBlank ·) guard.toList))

theorem isLineBreak_noteText {guard : String} {c : Char} (h : c ∈ (noteText guard).toList) :
    Text.isLineBreak c = false := by
  rw [noteText, String.toList_ofList] at h
  rw [Bool.eq_false_iff]
  intro hbreak
  rcases Text.of_mem_join h with hc | ⟨word, hword, hc⟩
  · obtain rfl := List.mem_singleton.1 hc
    exact absurd hbreak (by decide)
  · have hsolid := Text.of_mem_runs hword c hc
    rw [Text.isBlank_of_isLineBreak hbreak] at hsolid
    cases hsolid

/-- With the built-in profile, the note is a comment on a line of its own. -/
theorem note_builtin {r : Renderer} (hr : r.profile = .builtin) (guard : String) :
    r.answerText (.note guard) = .ok ("        # drives branch [" ++ noteText guard ++ "]\n") := by
  have hvalues : [("guard", noteText guard)].map (·.1) = TemplateKey.stubGuardNote.slots := rfl
  obtain ⟨line, hline⟩ : ∃ line, r.answerText (.note guard) = .ok line :=
    exists_ok (Renderer.fill_failsOnly hr hvalues)
  have hplain (cs : List Char) (values : Template.Values) :
      (cs.map Template.Piece.char).flatMap (·.filled values) = cs := by
    rw [List.flatMap_map]
    exact List.flatMap_singleton' cs
  have htext := Renderer.fill_text hr hvalues hline
  rw [TemplateKey.stubGuardNote_pieces, List.flatMap_append, List.flatMap_cons, hplain, hplain]
    at htext
  rw [hline, Except.ok.injEq, ← String.toList_inj, htext, String.toList_append,
    String.toList_append, List.append_assoc]
  rfl

/-! ## Texts in files -/

/-- **No text gets out of where it is written.** A text in a literal is contained, so that the quote
behind it is the one that closes it, and it is read back as the text; a template of messages is such
a literal. A note on a guard has no line ends in it, whatever the guard, and is one line of comment
with the built-in profile. -/
theorem text_stays (s template guard : String) (r : Renderer) (g : Group) :
    (Json.Contained (Json.escape s).toList ∧
      (∀ rest, Label.readQuoted? '"' ((Json.escape s).toList ++ '"' :: rest) =
        some ((Json.escape s).toList, rest)) ∧
      Json.parse? ("\"" ++ Json.escape s ++ "\"") = some (.text s)) ∧
    (∃ body, Json.quote template = "\"" ++ body ++ "\"" ∧ Json.Contained body.toList) ∧
    r.stubLines g [] g.stubs = Renderer.concat <$> (answersOf g [] g.stubs).mapM r.answerText ∧
    r.answerText (.note guard) = r.fill1 .stubGuardNote "guard" (noteText guard) ∧
    (∀ c ∈ (noteText guard).toList, Text.isLineBreak c = false) ∧
    (r.profile = .builtin → r.answerText (.note guard) =
      .ok ("        # drives branch [" ++ noteText guard ++ "]\n")) := by
  have hcontained := Json.contained_escape s
  refine ⟨⟨hcontained, hcontained.closes, ?_⟩, ?_, ?_, rfl, ?_, ?_⟩
  · have hread := Json.parse?_print (.text s)
    rwa [Json.print, Json.quote] at hread
  · exact ⟨Json.escape template, rfl, Json.contained_escape template⟩
  · exact Renderer.stubLines_eq [] g.stubs
  · exact fun c hc => isLineBreak_noteText hc
  · exact fun hr => note_builtin hr guard

end Source

end Lifeline
