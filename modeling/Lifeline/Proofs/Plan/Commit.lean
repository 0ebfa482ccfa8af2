import Lifeline.Plan.Commit
import Lifeline.Proofs.Lists
import Lifeline.Store.Memory
import Mathlib.Logic.Function.Basic

/-!
# What carrying out a plan leaves

A plan is carried out on a store that shows its files (`Store.Shows`): a call may be refused at any
time and then leaves the file of its own path in any state. Either every operation is written
(`Plan.Written`), or the first one that is refused stops the plan, and what was touched is put back
(`restore_shows`). Main theorem: `Plan.commit_all_or_nothing`.
-/

set_option autoImplicit false

namespace Lifeline

/-- A store with its files in view. A call that succeeds leaves the file that it was asked for, a
write only fails by being refused, and no call changes the file of another path. -/
structure Store.Shows {σ : Type} (store : Store σ) (view : σ → String → Option String) :
    Prop where
  written : ∀ {s s' path text}, store.write s path text = (s', .ok ()) → view s' path = some text
  removed : ∀ {s s' path}, store.remove s path = (s', .ok ()) → view s' path = none
  refused : ∀ {s s' path text fault}, store.write s path text = (s', .error fault) →
    ∃ reason, fault = .refused reason
  write_other : ∀ {s s' path text r q}, store.write s path text = (s', r) → q ≠ path →
    view s' q = view s q
  remove_other : ∀ {s s' path r q}, store.remove s path = (s', r) → q ≠ path →
    view s' q = view s q

/-! ## Files in memory -/

namespace Store.Memory

/-- Files in memory are a store that shows its files. -/
theorem shows : store.Shows text? where
  written := by
    intro m m' path text h
    simp only [store] at h
    split at h
    · cases h
    · cases h
      exact List.lookup_cons_self
  removed := by
    intro m m' path h
    simp only [store] at h
    split at h
    · cases h
    · cases h
      exact lookup_filter_self m.files path
  refused := by
    intro m m' path text fault h
    simp only [store] at h
    split at h
    · cases h
      exact ⟨_, rfl⟩
    · cases h
  write_other := by
    intro m m' path text r q h hq
    simp only [store] at h
    split at h
    · cases h
      rfl
    · cases h
      simpa [put, text?, List.lookup_cons, beq_eq_false_iff_ne.2 hq] using lookup_filter_ne hq
  remove_other := by
    intro m m' path r q h hq
    simp only [store] at h
    split at h
    · cases h
      rfl
    · cases h
      exact lookup_filter_ne hq

end Store.Memory

/-! ## Stores that fail as a script says -/

/-- Files, and what becomes of the next calls: `none` for a call that succeeds, or what a call that
is refused leaves under its path. All calls after these succeed. -/
structure Store.Scripted where
  files : String → Option String
  script : List (Option (Option String))

namespace Store.Scripted

/-- A call that leaves `text` under a path where it succeeds. -/
def call (m : Scripted) (path : String) (text : Option String) : Scripted × Except Fault Unit :=
  match m.script with
  | [] => ({ m with files := Function.update m.files path text }, .ok ())
  | none :: script => (⟨Function.update m.files path text, script⟩, .ok ())
  | some left :: script => (⟨Function.update m.files path left, script⟩, .error (.refused none))

/-- Files with a script as a store. -/
def store : Store Scripted where
  isFile m path := .ok (m.files path).isSome
  read m path := (m.files path).elim (.error (.refused none)) .ok
  write m path text := m.call path (some text)
  remove m path := m.call path none

theorem call_ok {m m' : Scripted} {path : String} {text : Option String}
    (h : m.call path text = (m', .ok ())) : m'.files path = text := by
  unfold call at h
  split at h
  all_goals cases h
  all_goals exact Function.update_self ..

theorem call_error {m m' : Scripted} {path : String} {text : Option String} {fault : Fault}
    (h : m.call path text = (m', .error fault)) : fault = .refused none := by
  unfold call at h
  split at h
  all_goals cases h
  all_goals rfl

theorem call_other {m m' : Scripted} {path q : String} {text : Option String}
    {r : Except Fault Unit} (h : m.call path text = (m', r)) (hq : q ≠ path) :
    m'.files q = m.files q := by
  unfold call at h
  split at h
  all_goals cases h
  all_goals exact Function.update_of_ne hq ..

/-- Whatever the script, such a store shows its files. -/
theorem shows : store.Shows files where
  written := call_ok
  removed := call_ok
  refused h := ⟨none, call_error h⟩
  write_other := call_other
  remove_other := call_other

end Store.Scripted

namespace Plan

/-! ## Operations that are written -/

/-- Operations that are all written, one after the other, and the states before and after. -/
inductive Written {σ : Type} (store : Store σ) : σ → List Operation → σ → Prop
  | nil (s : σ) : Written store s [] s
  | cons {s s₁ s₂ : σ} {o : Operation} {rest : List Operation} :
      store.write s o.path o.content = (s₁, .ok ()) → Written store s₁ rest s₂ →
      Written store s (o :: rest) s₂

variable {σ : Type} {store : Store σ} {view : σ → String → Option String} {s s' : σ}
  {o : Operation} {ops done : List Operation} {q : String}

theorem Written.other (hs : store.Shows view) (h : Written store s ops s')
    (hq : ∀ o ∈ ops, o.path ≠ q) : view s' q = view s q := by
  induction h with
  | nil => rfl
  | cons hw _ ih =>
    rw [ih fun o ho => hq o (List.mem_cons_of_mem _ ho)]
    exact hs.write_other hw (hq _ List.mem_cons_self).symm

/-- A file holds what the last operation on its path wrote. -/
theorem Written.last (hs : store.Shows view) {post : List Operation}
    (h : Written store s (ops ++ o :: post) s') (hp : ∀ x ∈ post, x.path ≠ o.path) :
    view s' o.path = some o.content := by
  induction ops generalizing s with
  | nil =>
    cases h with
    | cons hw hr =>
      rw [hr.other hs hp]
      exact hs.written hw
  | cons x ops ih =>
    cases h with
    | cons _ hr => exact ih hr

/-! ## Putting files back -/

theorem undo_other {r : Except Store.Fault Unit} (hs : store.Shows view)
    (h : o.undo store s = (s', r)) (hq : q ≠ o.path) : view s' q = view s q := by
  unfold Operation.undo at h
  cases hprev : o.previous with
  | none =>
    simp only [hprev] at h
    exact hs.remove_other h hq
  | some text =>
    simp only [hprev] at h
    exact hs.write_other h hq

theorem undo_own (hs : store.Shows view) (h : o.undo store s = (s', .ok ())) :
    view s' o.path = o.previous := by
  unfold Operation.undo at h
  cases hprev : o.previous with
  | none =>
    simp only [hprev] at h
    exact hs.removed h
  | some text =>
    simp only [hprev] at h
    exact hs.written h

/-- Paths that could not be put back are paths of operations. -/
theorem unrestored_subset (h : q ∈ (restore store s ops).2) : ∃ o ∈ ops, o.path = q := by
  induction ops generalizing s with
  | nil => cases h
  | cons o rest ih =>
    unfold restore at h
    rcases hu : o.undo store s with ⟨s₁, r⟩
    rw [hu] at h
    cases r with
    | ok u =>
      obtain ⟨x, hx, he⟩ := ih h
      exact ⟨x, List.mem_cons_of_mem _ hx, he⟩
    | error fault =>
      obtain rfl | hr := List.mem_cons.1 h
      · exact ⟨o, List.mem_cons_self, rfl⟩
      · obtain ⟨x, hx, he⟩ := ih hr
        exact ⟨x, List.mem_cons_of_mem _ hx, he⟩

theorem restore_other (hs : store.Shows view) (hq : ∀ o ∈ ops, o.path ≠ q) :
    view (restore store s ops).1 q = view s q := by
  induction ops generalizing s with
  | nil => rfl
  | cons o rest ih =>
    have hr : ∀ x ∈ rest, x.path ≠ q := fun x hx => hq x (List.mem_cons_of_mem _ hx)
    rcases hu : o.undo store s with ⟨s₁, r⟩
    have h₁ : view s₁ q = view s q := undo_other hs hu (hq o List.mem_cons_self).symm
    unfold restore
    rw [hu]
    cases r with
    | ok u => exact (ih hr).trans h₁
    | error fault => exact (ih hr).trans h₁

/-- Operations that all know the same files put these back: a file that they touch, or that is still
as it was, is as it was afterwards, where its path is not named. -/
theorem restore_shows (hs : store.Shows view) {before : String → Option String}
    (hb : ∀ o ∈ ops, o.previous = before o.path)
    (ht : (∃ o ∈ ops, o.path = q) ∨ view s q = before q) (hq : q ∉ (restore store s ops).2) :
    view (restore store s ops).1 q = before q := by
  induction ops generalizing s with
  | nil =>
    obtain ⟨o, ho, -⟩ | h := ht
    · cases ho
    · exact h
  | cons o rest ih =>
    have hr : ∀ x ∈ rest, x.previous = before x.path := fun x hx =>
      hb x (List.mem_cons_of_mem _ hx)
    -- a path other than that of `o` is touched by the rest, or has not changed yet
    have hrest : ∀ {s₁ r}, o.undo store s = (s₁, r) → q ≠ o.path →
        (∃ x ∈ rest, x.path = q) ∨ view s₁ q = before q := by
      intro s₁ r hu hne
      obtain ⟨x, hx, he⟩ | h := ht
      · obtain rfl | hx := List.mem_cons.1 hx
        · exact absurd he.symm hne
        · exact .inl ⟨x, hx, he⟩
      · exact .inr ((undo_other hs hu hne).trans h)
    rcases hu : o.undo store s with ⟨s₁, r⟩
    unfold restore at hq ⊢
    rw [hu] at hq ⊢
    cases r with
    | ok u =>
      refine ih hr ?_ hq
      by_cases hne : q = o.path
      · subst hne
        exact .inr ((undo_own hs hu).trans (hb o List.mem_cons_self))
      · exact hrest hu hne
    | error fault =>
      have hne : q ≠ o.path := fun he => hq (he ▸ List.mem_cons_self)
      exact ih hr (hrest hu hne) fun hm => hq (List.mem_cons_of_mem _ hm)

/-! ## The run of a plan -/

section Refused

variable {pre : List Operation} {s₁ s₂ : σ} {reason : Option String} (hs : store.Shows view)
  (hpre : Written store s pre s₁)
  (hw : store.write s₁ o.path o.content = (s₂, .error (.refused reason)))

include hs hpre hw

/-- What no operation touches is the same before the run and after a write that is refused. -/
theorem refused_other (hq : ∀ x ∈ o :: pre.reverse, x.path ≠ q) : view s₂ q = view s q := by
  rw [hs.write_other hw (hq o List.mem_cons_self).symm]
  exact hpre.other hs fun x hx => hq x (List.mem_cons_of_mem _ (List.mem_reverse.2 hx))

theorem restore_refused_other (hq : ∀ x ∈ o :: pre.reverse, x.path ≠ q) :
    view (restore store s₂ (o :: pre.reverse)).1 q = view s q := by
  rw [restore_other hs hq]
  exact refused_other hs hpre hw hq

theorem restore_refused (hprev : ∀ x ∈ o :: pre.reverse, x.previous = view s x.path)
    (hq : q ∉ (restore store s₂ (o :: pre.reverse)).2) :
    view (restore store s₂ (o :: pre.reverse)).1 q = view s q := by
  apply restore_shows hs hprev _ hq
  by_cases ht : ∃ x ∈ o :: pre.reverse, x.path = q
  · exact .inl ht
  · exact .inr (refused_other hs hpre hw fun x hx he => ht ⟨x, hx, he⟩)

end Refused

theorem written_of_commitAfter {u : Unit} (h : commitAfter store done s ops = (s', .ok u)) :
    Written store s ops s' := by
  induction ops generalizing done s with
  | nil =>
    cases h
    exact .nil _
  | cons o rest ih =>
    unfold commitAfter at h
    rcases hw : store.write s o.path o.content with ⟨s₁, r⟩
    rw [hw] at h
    cases r with
    | ok u => exact .cons hw (ih h)
    | error fault => cases fault <;> cases h

/-- Where a plan fails, a write was refused after others that were not, and all of them were put
back, the refused one first. -/
theorem refused_of_commitAfter {e : Error}
    (hrefused : ∀ o ∈ ops, ∀ {s s' fault}, store.write s o.path o.content = (s', .error fault) →
      ∃ reason, fault = .refused reason)
    (h : commitAfter store done s ops = (s', .error e)) :
    ∃ pre o post s₁ s₂ reason, ops = pre ++ o :: post ∧ Written store s pre s₁ ∧
      store.write s₁ o.path o.content = (s₂, .error (.refused reason)) ∧
      restore store s₂ (o :: (pre.reverse ++ done)) = (s', e.unrestored) ∧
      e = .unwritable o.path reason e.unrestored := by
  induction ops generalizing done s with
  | nil => cases h
  | cons o rest ih =>
    obtain ⟨ho, hrest⟩ := List.forall_mem_cons.1 hrefused
    unfold commitAfter at h
    rcases hw : store.write s o.path o.content with ⟨s₁, r⟩
    rw [hw] at h
    cases r with
    | ok u =>
      obtain ⟨pre, x, post, s₂, s₃, reason, rfl, hpre, hx, hres, he⟩ := ih hrest h
      refine ⟨o :: pre, x, post, s₂, s₃, reason, rfl, .cons hw hpre, hx, ?_, he⟩
      simpa using hres
    | error fault =>
      obtain ⟨reason, rfl⟩ := ho hw
      cases h
      exact ⟨[], o, rest, s, s₁, reason, rfl, .nil s, hw, rfl, rfl⟩

/-- **A plan is carried out as a whole or not at all**, up to the paths that its failure names. The
operations know the files as they are before the run, and any call may be refused. A failure names
the path of the first write that is refused, and every file whose path is not among the unrestored
ones is as it was. Without a failure the paths are those of the plan in order, and every file of the
plan holds what the last operation on it writes. Other files never change. -/
theorem commit_all_or_nothing (p : Plan) (hs : store.Shows view)
    (hprev : ∀ o ∈ p.operations, o.previous = view s o.path) :
    (∀ e, (p.commit store s).2 = .error e →
      ∃ pre o post s₁ s₂ reason, p.operations = pre ++ o :: post ∧ Written store s pre s₁ ∧
        store.write s₁ o.path o.content = (s₂, .error (.refused reason)) ∧
        e = .unwritable o.path reason e.unrestored ∧
        e.kindAndPath? = some ("write-failed", o.path) ∧
        (∀ q ∈ e.unrestored, ∃ x ∈ pre ++ [o], x.path = q) ∧
        ∀ q, q ∉ e.unrestored → view (p.commit store s).1 q = view s q) ∧
    (∀ paths, (p.commit store s).2 = .ok paths →
      paths = p.operations.map (·.path) ∧
        ∀ pre o post, p.operations = pre ++ o :: post → (∀ x ∈ post, x.path ≠ o.path) →
          view (p.commit store s).1 o.path = some o.content) ∧
    ∀ q, (∀ o ∈ p.operations, o.path ≠ q) → view (p.commit store s).1 q = view s q := by
  rcases hc : commitAfter store [] s p.operations with ⟨s', r⟩
  unfold commit
  rw [hc]
  cases r with
  | ok u =>
    have hw : Written store s p.operations s' := written_of_commitAfter hc
    refine ⟨nofun, fun paths hpaths => ?_, fun q hq => hw.other hs hq⟩
    cases hpaths
    refine ⟨rfl, fun pre o post hops hpost => ?_⟩
    rw [hops] at hw
    exact hw.last hs hpost
  | error e =>
    obtain ⟨pre, o, post, s₁, s₂, reason, hops, hpre, hw, hres, he⟩ :=
      refused_of_commitAfter (fun _ _ => hs.refused) hc
    rw [List.append_nil] at hres
    have hun : (restore store s₂ (o :: pre.reverse)).2 = e.unrestored := congrArg Prod.snd hres
    have hend : (restore store s₂ (o :: pre.reverse)).1 = s' := congrArg Prod.fst hres
    have htouched : ∀ x ∈ o :: pre.reverse, x ∈ p.operations := by
      intro x hx
      rw [hops]
      obtain rfl | hx := List.mem_cons.1 hx
      · simp
      · exact List.mem_append_left _ (List.mem_reverse.1 hx)
    refine ⟨fun e' he' => ?_, nofun, fun q hq => ?_⟩
    · cases he'
      refine ⟨pre, o, post, s₁, s₂, reason, hops, hpre, hw, he, ?_, fun q hq => ?_, fun q hq => ?_⟩
      · rw [he]
        rfl
      · rw [← hun] at hq
        obtain ⟨x, hx, hxq⟩ := unrestored_subset hq
        exact ⟨x, by simpa [or_comm] using hx, hxq⟩
      · show view s' q = view s q
        rw [← hun] at hq
        rw [← hend]
        exact restore_refused hs hpre hw (fun x hx => hprev x (htouched x hx)) hq
    · show view s' q = view s q
      rw [← hend]
      exact restore_refused_other hs hpre hw fun x hx => hq x (htouched x hx)

/-- A new file, and two writes of a file that is there. -/
def rewrite : Plan where
  operations := [
    { path := "a.py", mode := .create, content := "a = 1" },
    { path := "b.py", mode := .update, content := "b = 1", previous := some "b = 0" },
    { path := "b.py", mode := .update, content := "b = 2", previous := some "b = 0" }]

/-- A store that refuses the third call, the second write of `b.py`, and the last one, which takes
the new file away again. -/
def jammed : Store.Scripted where
  files := fun path => if path = "b.py" then some "b = 0" else none
  script := [none, none, some none, none, none, some (some "a")]

/-- The write that is refused is the second one of a file: the file is put back, the new one
cannot be. -/
theorem commit_rewrite_jammed :
    ∃ e, (rewrite.commit Store.Scripted.store jammed).2 = .error e ∧ e.unrestored = ["a.py"] ∧
      e.kindAndPath? = some ("write-failed", "b.py") ∧
      (rewrite.commit Store.Scripted.store jammed).1.files "b.py" = some "b = 0" := by
  have hprev : ∀ o ∈ rewrite.operations, o.previous = jammed.files o.path := by
    simp [rewrite, jammed]
  have h : (rewrite.commit Store.Scripted.store jammed).2 =
      .error (.unwritable "b.py" none ["a.py"]) := rfl
  obtain ⟨hfail, -, -⟩ := commit_all_or_nothing rewrite Store.Scripted.shows hprev
  obtain ⟨_, _, _, _, _, _, _, _, _, _, _, _, hkept⟩ := hfail _ h
  exact ⟨_, h, rfl, rfl, hkept "b.py" (by decide)⟩

end Plan

end Lifeline
