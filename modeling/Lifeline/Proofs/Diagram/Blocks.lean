import Lifeline.Model.Basic
import Mathlib.Data.List.Basic
import Mathlib.Data.List.Infix
import Mathlib.Data.List.Nodup

/-!
# The blocks around a position

`framesAt es n`: the blocks around the `n`-th of the elements `es`, outermost first, each with the
branch it is in. It is a stack machine over the loops, branches and ends (`Blocks.step`) that knows
nothing of messages.

* `Blocks.Ok`: an inner block has a higher number than the blocks around it.
* `framesAt_between`: a chain of frames that is around two positions is around every position
  between them, since a branch that has been left does not come back (`Blocks.Left`).
* `framesAt_turns`: the branches of a block come in their order.
* `framesAt_unbroken`: a block around two positions is around every position between them, in some
  branch.
-/

namespace Lifeline.Model

/-- The open blocks, innermost first, each with the branch it is in, and the number of blocks that
have been opened. -/
structure Blocks where
  around : List Frame := []
  count : Nat := 0

namespace Blocks

/-- The blocks after one more has been opened. -/
def opened (b : Blocks) (k : FragmentKind) : Blocks :=
  { around := ⟨k, b.count, 0⟩ :: b.around, count := b.count + 1 }

/-- The blocks after a further branch of the innermost one. -/
def branched (b : Blocks) : Blocks :=
  { b with around := match b.around with
      | [] => []
      | f :: rest => { f with branch := f.branch + 1 } :: rest }

/-- The blocks after the innermost one has been closed. -/
def closed (b : Blocks) : Blocks := { b with around := b.around.tail }

/-- The blocks after one more element. -/
def step (b : Blocks) : Element → Blocks
  | .loop .. => b.opened .loop
  | .alt .. => b.opened .alt
  | .orElse .. => b.branched
  | .close .. => b.closed
  | .participant .. | .entry _ | .call _ | .reply _ | .raise _ | .result _ => b

theorem step_cases (b : Blocks) (e : Element) :
    (∃ k, b.step e = b.opened k) ∨ b.step e = b.branched ∨ b.step e = b.closed ∨
      b.step e = b := by
  cases e <;> simp [step]

/-- The blocks after some elements. -/
def after (es : List Element) : Blocks := es.foldl step {}

@[simp] theorem after_nil : after [] = {} := rfl

@[simp] theorem after_append (es : List Element) (e : Element) :
    after (es ++ [e]) = (after es).step e := by
  simp [after]

/-- Inner blocks have higher numbers, and all have been counted. -/
structure Ok (b : Blocks) : Prop where
  sorted : b.around.Pairwise (fun f g => g.block < f.block)
  counted : ∀ f ∈ b.around, f.block < b.count

theorem Ok.step {b : Blocks} (h : b.Ok) (e : Element) : (b.step e).Ok := by
  obtain ⟨hs, hc⟩ := h
  obtain ⟨k, he⟩ | he | he | he := b.step_cases e <;> rw [he]
  · refine ⟨List.pairwise_cons.2 ⟨fun f hf => hc f hf, hs⟩, fun f hf => ?_⟩
    rcases List.mem_cons.1 hf with rfl | hf
    · exact Nat.lt_succ_self _
    · exact Nat.lt_succ_of_lt (hc f hf)
  · unfold branched
    split
    · exact ⟨.nil, by simp⟩
    · rename_i f rest hb
      rw [hb] at hs hc
      refine ⟨List.pairwise_cons.2 (List.pairwise_cons.1 hs), fun g hg => ?_⟩
      rcases List.mem_cons.1 hg with rfl | hg
      · exact hc f (.head _)
      · exact hc g (.tail _ hg)
  · exact ⟨hs.sublist (List.tail_sublist _), fun f hf => hc f (List.mem_of_mem_tail hf)⟩
  · exact ⟨hs, hc⟩

theorem after_ok (es : List Element) : (after es).Ok := by
  induction es using List.reverseRecOn with
  | nil => exact ⟨.nil, by simp⟩
  | append_singleton es e ih => rw [after_append]; exact ih.step e

/-! ## Branches that have been left -/

/-- The branch of `f` has been left: if its block is still open, it is in a later branch. -/
def Left (b : Blocks) (f : Frame) : Prop :=
  f.block < b.count ∧ ∀ g ∈ b.around, g.block = f.block → f.branch < g.branch

theorem Left.not_mem {b : Blocks} {f : Frame} (h : b.Left f) : f ∉ b.around :=
  fun hf => Nat.lt_irrefl _ (h.2 f hf rfl)

theorem Left.step {b : Blocks} {f : Frame} (h : b.Left f) (e : Element) : (b.step e).Left f := by
  obtain ⟨hc, ha⟩ := h
  obtain ⟨k, he⟩ | he | he | he := b.step_cases e <;> rw [he]
  · refine ⟨Nat.lt_succ_of_lt hc, fun g hg hgf => ?_⟩
    rcases List.mem_cons.1 hg with rfl | hg
    · exact absurd hgf (Nat.ne_of_gt hc)
    · exact ha g hg hgf
  · refine ⟨hc, fun g hg hgf => ?_⟩
    unfold branched at hg
    split at hg
    · simp at hg
    · rename_i f0 rest hb
      rw [hb] at ha
      rcases List.mem_cons.1 hg with rfl | hg
      · exact Nat.lt_succ_of_lt (ha f0 (.head _) hgf)
      · exact ha g (.tail _ hg) hgf
  · exact ⟨hc, fun g hg => ha g (List.mem_of_mem_tail hg)⟩
  · exact ⟨hc, ha⟩

/-- A chain of frames that one step leaves: the step ends or changes its innermost branch. -/
theorem left_of_step {b : Blocks} (hb : b.Ok) {f : Frame} {P : List Frame} (e : Element)
    (h : f :: P <:+ b.around) (hn : ¬ f :: P <:+ (b.step e).around) : (b.step e).Left f := by
  obtain ⟨pre, hpre⟩ := h
  have hf : f.block < b.count := hb.counted f (by rw [← hpre]; simp)
  have hrest : ∀ g ∈ P, g.block < f.block := by
    have hs := hb.sorted
    rw [← hpre] at hs
    exact (List.pairwise_cons.1 (List.pairwise_append.1 hs).2.1).1
  obtain ⟨k, he⟩ | he | he | he := b.step_cases e <;> rw [he] at hn ⊢
  · exact absurd ⟨⟨k, b.count, 0⟩ :: pre, by simp [opened, hpre]⟩ hn
  · cases pre with
    | nil =>
      refine ⟨hf, fun g hg hgf => ?_⟩
      simp only [branched, ← hpre, List.nil_append] at hg
      rcases List.mem_cons.1 hg with rfl | hg
      · exact Nat.lt_succ_self _
      · exact absurd hgf (Nat.ne_of_lt (hrest g hg))
    | cons g pre =>
      exact absurd ⟨{ g with branch := g.branch + 1 } :: pre, by simp [branched, ← hpre]⟩ hn
  · cases pre with
    | nil =>
      refine ⟨hf, fun g hg hgf => ?_⟩
      simp only [closed, ← hpre, List.nil_append, List.tail_cons] at hg
      exact absurd hgf (Nat.ne_of_lt (hrest g hg))
    | cons g pre => exact absurd ⟨pre, by simp [closed, ← hpre]⟩ hn
  · exact absurd ⟨pre, hpre⟩ hn

/-! ## Blocks that have been closed -/

/-- The block has been opened, and is not open any more. -/
def Shut (b : Blocks) (n : Nat) : Prop := n < b.count ∧ ∀ g ∈ b.around, g.block ≠ n

theorem count_le_step (b : Blocks) (e : Element) : b.count ≤ (b.step e).count := by
  obtain ⟨k, he⟩ | he | he | he := b.step_cases e <;> rw [he]
  · exact Nat.le_succ _
  · exact Nat.le_refl _
  · exact Nat.le_refl _

theorem Shut.step {b : Blocks} {n : Nat} (h : b.Shut n) (e : Element) : (b.step e).Shut n := by
  obtain ⟨hc, ha⟩ := h
  refine ⟨Nat.lt_of_lt_of_le hc (b.count_le_step e), ?_⟩
  obtain ⟨k, he⟩ | he | he | he := b.step_cases e <;> rw [he]
  · intro g hg
    rcases List.mem_cons.1 hg with rfl | hg
    · exact Nat.ne_of_gt hc
    · exact ha g hg
  · intro g hg
    unfold branched at hg
    split at hg
    · simp at hg
    · rename_i f rest hb
      rw [hb] at ha
      rcases List.mem_cons.1 hg with rfl | hg
      · exact ha f (.head _)
      · exact ha g (.tail _ hg)
  · exact fun g hg => ha g (List.mem_of_mem_tail hg)
  · exact ha

end Blocks

/-- The blocks around the `n`-th element, outermost first. -/
def framesAt (es : List Element) (n : Nat) : List Frame :=
  (Blocks.after (es.take n)).around.reverse

/-- What every step keeps stays. -/
theorem after_mono {P : Blocks → Prop} (hstep : ∀ b e, P b → P (b.step e)) {es : List Element}
    {i j : Nat} (hij : i ≤ j) (h : P (Blocks.after (es.take i))) :
    P (Blocks.after (es.take j)) := by
  induction j, hij using Nat.le_induction with
  | base => exact h
  | succ j _ ih =>
    rcases Nat.lt_or_ge j es.length with hj | hj
    · rw [List.take_succ_eq_append_getElem hj, Blocks.after_append]
      exact hstep _ _ ih
    · rwa [List.take_of_length_le (by omega), ← List.take_of_length_le hj]

/-- Once left, a branch stays left. -/
theorem left_mono {es : List Element} {f : Frame} {i j : Nat} (hij : i ≤ j)
    (h : (Blocks.after (es.take i)).Left f) : (Blocks.after (es.take j)).Left f :=
  after_mono (P := fun b => b.Left f) (fun _ e hb => hb.step e) hij h

/-- A chain of frames around a position is around a later one, or its innermost branch has been
left. -/
theorem suffix_or_left {es : List Element} {f : Frame} {P : List Frame} {i j : Nat} (hij : i ≤ j)
    (h : f :: P <:+ (Blocks.after (es.take i)).around) :
    f :: P <:+ (Blocks.after (es.take j)).around ∨ (Blocks.after (es.take j)).Left f := by
  induction j, hij using Nat.le_induction with
  | base => exact .inl h
  | succ j _ ih =>
    rcases Nat.lt_or_ge j es.length with hj | hj
    · rw [List.take_succ_eq_append_getElem hj, Blocks.after_append]
      rcases ih with ih | ih
      · by_cases hn : f :: P <:+ ((Blocks.after (es.take j)).step es[j]).around
        · exact .inl hn
        · exact .inr (Blocks.left_of_step (Blocks.after_ok _) _ ih hn)
      · exact .inr (ih.step _)
    · rwa [List.take_of_length_le (by omega), ← List.take_of_length_le hj]

/-- **A chain of frames around two positions** is around every position between them. -/
theorem framesAt_between {es : List Element} {P : List Frame} {i j k : Nat} (hij : i ≤ j)
    (hjk : j ≤ k) (hi : P <+: framesAt es i) (hk : P <+: framesAt es k) : P <+: framesAt es j := by
  obtain rfl | ⟨f, Q, hQ⟩ : P = [] ∨ ∃ f Q, P.reverse = f :: Q := by
    cases h : P.reverse with
    | nil => exact .inl (by simpa using h)
    | cons f Q => exact .inr ⟨f, Q, rfl⟩
  · exact List.nil_prefix
  unfold framesAt at *
  rw [← List.reverse_suffix, List.reverse_reverse, hQ] at hi hk ⊢
  rcases suffix_or_left hij hi with hj | hleft
  · exact hj
  · exact absurd (hk.subset (.head _)) (left_mono hjk hleft).not_mem

/-- **The branches of a block** come in their order: around a later position there is no earlier
one. -/
theorem framesAt_turns {es : List Element} {i j : Nat} (hij : i ≤ j) {f g : Frame}
    (hf : f ∈ framesAt es i) (hg : g ∈ framesAt es j) (hb : f.block = g.block) :
    f.branch ≤ g.branch := by
  unfold framesAt at hf hg
  rw [List.mem_reverse] at hf hg
  obtain ⟨pre, P, hP⟩ := List.append_of_mem hf
  rcases suffix_or_left hij ⟨pre, hP.symm⟩ with hj | hleft
  · have hd : ((Blocks.after (es.take j)).around.map (·.block)).Nodup :=
      List.pairwise_map.2 ((Blocks.after_ok _).sorted.imp fun h => Nat.ne_of_gt h)
    rw [List.inj_on_of_nodup_map hd (hj.subset (.head _)) hg hb]
  · exact Nat.le_of_lt (hleft.2 g hg hb.symm)

/-- **A block around two positions** is around every position between them: what has been closed is
not opened again. -/
theorem framesAt_unbroken {es : List Element} {i j k : Nat} (hij : i ≤ j) (hjk : j ≤ k)
    {f g : Frame} (hf : f ∈ framesAt es i) (hg : g ∈ framesAt es k) (hb : f.block = g.block) :
    ∃ f' ∈ framesAt es j, f'.block = f.block := by
  unfold framesAt at hf hg ⊢
  simp only [List.mem_reverse] at hf hg ⊢
  by_contra hnone
  have hcount : f.block < (Blocks.after (es.take j)).count := by
    refine after_mono (P := fun b => f.block < b.count) (fun b e h => ?_) hij
      ((Blocks.after_ok _).counted f hf)
    exact Nat.lt_of_lt_of_le h (b.count_le_step e)
  have hshut : (Blocks.after (es.take k)).Shut f.block :=
    after_mono (P := fun b => b.Shut f.block) (fun _ e h => h.step e) hjk
      ⟨hcount, fun f' hf' he => hnone ⟨f', hf', he⟩⟩
  exact hshut.2 g hg hb.symm

end Lifeline.Model
