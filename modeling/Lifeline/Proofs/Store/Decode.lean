import Lifeline.Proofs.Outcome
import Lifeline.Store.Directory

/-!
# Texts of bytes

A file is read with every line ending in a line feed, and a text is written as it is. So a file that
is read and written back has its old bytes exactly where no carriage return is in it
(`toUTF8_decode_iff`), and the same decides whether a longer text begins with them
(`begins_decode_iff`).
-/

set_option autoImplicit false

namespace Lifeline.Store.Directory

/-- Bytes that write a text with a carriage return in it. -/
def HasReturn (bytes : ByteArray) : Prop :=
  ∃ text ∈ String.fromUTF8? bytes, '\r' ∈ text.toList

instance (bytes : ByteArray) : Decidable (HasReturn bytes) :=
  inferInstanceAs (Decidable (∃ text ∈ String.fromUTF8? bytes, '\r' ∈ text.toList))

theorem endLines_of_not_mem : ∀ {cs : List Char}, '\r' ∉ cs → endLines cs = cs
  | [], _ => by simp [endLines]
  | c :: cs, h => by
    obtain ⟨hc, hcs⟩ := List.ne_and_not_mem_of_not_mem_cons h
    rw [endLines, endLines_of_not_mem hcs]
    · exact fun _ he => absurd he.symm hc
    · exact fun he => hc he.symm

/-- The first carriage return becomes a line feed; what is in front of it stays. -/
theorem endLines_cut : ∀ {cs : List Char}, '\r' ∈ cs → ∃ before after after',
    cs = before ++ '\r' :: after ∧ endLines cs = before ++ '\n' :: after'
  | c :: cs, h => by
    by_cases hc : c = '\r'
    · subst hc
      refine ⟨[], cs, (endLines ('\r' :: cs)).tail, rfl, ?_⟩
      cases cs with
      | nil => rfl
      | cons c' cs' =>
        by_cases hc' : c' = '\n'
        · subst hc'
          simp [endLines]
        · rw [endLines]
          · rfl
          · exact fun _ he => hc' (List.cons.inj he).1
    · obtain ⟨before, after, after', rfl, hlines⟩ :=
        endLines_cut (List.mem_of_ne_of_mem (Ne.symm hc) h)
      refine ⟨c :: before, after, after', rfl, ?_⟩
      rw [endLines, hlines]
      · rfl
      · exact fun _ he => absurd he hc
      · exact fun he => hc he

theorem toUTF8_of_fromUTF8? {bytes : ByteArray} {text : String}
    (h : String.fromUTF8? bytes = some text) : text.toUTF8 = bytes := by
  unfold String.fromUTF8? at h
  split at h
  · rw [← Option.some.inj h]
    rfl
  · cases h

theorem decode_ok {bytes : ByteArray} {text : String} :
    decode bytes = .ok text ↔ ∃ written, String.fromUTF8? bytes = some written ∧
      text = .ofList (endLines written.toList) := by
  unfold decode
  cases String.fromUTF8? bytes <;> simp [eq_comm]

/-- **A longer text begins with the bytes it was read from** where no carriage return is in them. -/
theorem begins_decode_iff {bytes : ByteArray} {text : String} (h : decode bytes = .ok text)
    (rest : String) : (∃ more, (text ++ rest).toUTF8 = bytes ++ more) ↔ ¬ HasReturn bytes := by
  obtain ⟨written, hwritten, rfl⟩ := decode_ok.1 h
  obtain rfl := toUTF8_of_fromUTF8? hwritten
  refine ⟨fun ⟨more, hmore⟩ ⟨text, htext, hreturn⟩ => ?_, fun hno => ?_⟩
  · obtain rfl := Option.some.inj (hwritten.symm.trans htext)
    obtain ⟨before, after, after', hbefore, hlines⟩ := endLines_cut hreturn
    -- one byte behind what both begin with, a line feed would be a carriage return
    have hwrite : written.toUTF8 = before.utf8Encode ++ ('\r' :: after).utf8Encode := by
      rw [← List.utf8Encode_append, ← hbefore, ← String.toByteArray_ofList, String.ofList_toList]
      rfl
    have hread : (String.ofList (endLines written.toList) ++ rest).toUTF8 =
        before.utf8Encode ++ (('\n' :: after').utf8Encode ++ rest.toUTF8) := by
      rw [hlines, String.toUTF8_eq_toByteArray, String.toByteArray_append,
        String.toByteArray_ofList, List.utf8Encode_append, ByteArray.append_assoc]
      rfl
    have hbytes := congrArg (fun b : ByteArray => b.data.toList) (hread.symm.trans (hmore.trans
      (congrArg (· ++ more) hwrite)))
    simp only [ByteArray.append_assoc, ByteArray.toList_data_append] at hbytes
    have htails := List.append_cancel_left hbytes
    rw [List.utf8Encode_cons, List.utf8Encode_cons (c := '\r')] at htails
    simp only [ByteArray.toList_data_append] at htails
    have hfeed : ['\n'].utf8Encode.data.toList = [10] := by decide
    have hback : ['\r'].utf8Encode.data.toList = [13] := by decide
    rw [hfeed, hback] at htails
    exact absurd (List.cons.inj htails).1 (by decide)
  · have hsame : String.ofList (endLines written.toList) = written := by
      rw [endLines_of_not_mem fun hmem => hno ⟨written, hwritten, hmem⟩, String.ofList_toList]
    exact ⟨rest.toUTF8, by rw [hsame]; exact String.toByteArray_append⟩

theorem toUTF8_decode_iff {bytes : ByteArray} {text : String} (h : decode bytes = .ok text) :
    text.toUTF8 = bytes ↔ ¬ HasReturn bytes := by
  constructor
  · intro hsame
    refine (begins_decode_iff h "").1 ⟨.empty, ?_⟩
    rw [String.append_empty, hsame, ByteArray.append_empty]
  · intro hno
    obtain ⟨written, hwritten, rfl⟩ := decode_ok.1 h
    rw [endLines_of_not_mem fun hmem => hno ⟨written, hwritten, hmem⟩, String.ofList_toList]
    exact toUTF8_of_fromUTF8? hwritten

end Lifeline.Store.Directory
