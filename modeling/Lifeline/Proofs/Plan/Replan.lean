import Lifeline.Proofs.Lists
import Lifeline.Proofs.Plan.Settled

/-!
# Planning once more

Where the plan of some files is carried out in memory, every file holds a text that is settled for
it: each path has one operation at most, so no write disturbs another (`Written.after`). So the next
plan of the same files has nothing to do, unless a file that was created cannot be read
(`replans_iff`).
-/

set_option autoImplicit false

namespace Lifeline.Plan

open Source (Block File)
open Store (Memory)

/-! ## What the writes of a plan leave -/

/-- What a file plan writes is the file that it is for. -/
def Targets (f : File) (p : FilePlan) : Prop := ∀ o ∈ p.operation, o.path = f.path

/-- Files hold what their operations wrote, and without one what they held. -/
theorem Written.after {σ : Type} {store : Store σ} {view : σ → String → Option String}
    (hs : store.Shows view) {files : List File} {plans : List FilePlan} {s s' : σ}
    (ht : List.Forall₂ Targets files plans) (hn : (files.map (·.path)).Nodup)
    (hw : Written store s (plans.filterMap (·.operation)) s') :
    List.Forall₂ (fun f p => view s' f.path = (p.operation.map (·.content)).or (view s f.path))
      files plans := by
  induction ht generalizing s with
  | nil => exact .nil
  | @cons f p files plans hfp ht ih =>
    obtain ⟨hf, hn⟩ := List.nodup_cons.1 (List.map_cons ▸ hn)
    have hothers : ∀ g ∈ files, g.path ≠ f.path := fun g hg he =>
      hf (he ▸ List.mem_map_of_mem hg)
    have hrest : ∀ o ∈ plans.filterMap (·.operation), o.path ≠ f.path := fun o ho => by
      obtain ⟨q, hq, hqo⟩ := List.mem_filterMap.1 ho
      obtain ⟨g, hg, hgq⟩ := forall₂_right ht q hq
      rw [hgq o hqo]
      exact hothers g hg
    cases hp : p.operation with
    | none =>
      rw [List.filterMap_cons_none hp] at hw
      exact .cons (by simpa [hp] using hw.other hs hrest) (ih hn hw)
    | some o =>
      rw [List.filterMap_cons_some hp] at hw
      obtain _ | ⟨hwrite, hw⟩ := hw
      have hof : o.path = f.path := hfp o hp
      refine .cons ?_ (((List.forall₂_and_left ..).2 ⟨hothers, ih hn hw⟩).imp ?_)
      · rw [hw.other hs hrest, ← hof, hs.written hwrite, hp]
        rfl
      · rintro g q ⟨hg, hview⟩
        rw [hview, hs.write_other hwrite (hof ▸ hg)]

theorem Written.unreadable_eq {m m' : Memory} {ops : List Operation}
    (h : Written Memory.store m ops m') : m'.unreadable = m.unreadable := by
  induction h with
  | nil => rfl
  | @cons m m₁ m₂ o rest hw _ ih =>
    rw [ih]
    simp only [Memory.store] at hw
    split at hw
    · cases hw
    · obtain ⟨rfl, -⟩ := Prod.mk.inj hw
      rfl

/-! ## The plan of one file -/

variable {m : Memory} {f : File} {p : FilePlan}

/-- What is done about a file in memory: it is created where it is missing, and otherwise read. -/
theorem planFile_cases (h : planFile Memory.store m {} f = .ok p) :
    (m.text? f.path = none ∧ p = createFile f) ∨
      f.path ∉ m.unreadable ∧ ∃ text, m.text? f.path = some text ∧
        extendFile {} f text = .ok p := by
  unfold planFile at h
  cases ht : m.text? f.path with
  | none =>
    simp only [Memory.store, ht, Option.isSome_none] at h
    exact .inl ⟨rfl, (Except.ok.inj h).symm⟩
  | some text =>
    by_cases hu : f.path ∈ m.unreadable
    · simp [Memory.store, ht, hu, Memory.refusal] at h
    · simp only [Memory.store, ht, Option.isSome_some, List.contains_iff_mem, hu, if_false] at h
      exact .inr ⟨hu, text, rfl, h⟩

/-- A file that is settled and can be read needs nothing. -/
theorem planFile_of_settled {text : String} (ht : m.text? f.path = some text)
    (h : Settled f text) (hu : f.path ∉ m.unreadable) :
    ∃ p, planFile Memory.store m {} f = .ok p ∧ p.path = f.path ∧ p.operation = none ∧
      p.conflicts = [] := by
  obtain ⟨p, hp, hrest⟩ := h.extendFile
  refine ⟨p, ?_, hrest⟩
  unfold planFile
  simp only [Memory.store, ht, Option.isSome_some, List.contains_iff_mem, hu, if_false, hp]

/-- The plan `p` for a file in memory leaves the text `held`: a settled one, of a file that could be
read or was created. -/
structure Leaves (m : Memory) (f : File) (p : FilePlan) (held : Option String) : Prop where
  targets : Targets f p
  readable : (∃ o ∈ p.operation, o.mode = .create) ∨ f.path ∉ m.unreadable
  settled : ∃ text, held = some text ∧ Settled f text

/-- A plan for a file leaves a text that is settled for it. -/
theorem leaves_of_planFile (hf : Rendered f) (h : planFile Memory.store m {} f = .ok p)
    (hc : p.conflicts = []) :
    Leaves m f p ((p.operation.map (·.content)).or (m.text? f.path)) := by
  rcases planFile_cases h with ⟨ht, rfl⟩ | ⟨hu, text, ht, hp⟩
  · refine ⟨fun o ho => ?_, .inl ⟨_, rfl, rfl⟩, f.content, rfl, settled_content hf⟩
    obtain rfl := Option.some.inj ho
    rfl
  · obtain ⟨-, -, missing, -, -, hafter⟩ := extendFile_cases hp
    refine ⟨?_, .inr hu, p.textAfter text, ?_, settled_textAfter hf hp hc⟩
    · rcases hafter with ⟨-, ho⟩ | ⟨o, ho, hpath, -⟩
      · simp [Targets, ho]
      · simpa [Targets, ho] using hpath
    · rw [ht, FilePlan.textAfter]
      cases p.operation <;> rfl

/-! ## The plan of all files -/

variable {plans : List FilePlan}

/-- Where nothing is to be done about any file. -/
theorem ofFilePlans_of_none (h : ∀ p ∈ plans, p.operation = none ∧ p.conflicts = []) :
    ∃ plan, ofFilePlans plans = .ok plan ∧ plan.operations = [] ∧
      plan.unchanged = plans.map (·.path) := by
  have hc : plans.flatMap (·.conflicts) = [] := List.flatMap_eq_nil_iff.2 fun p hp => (h p hp).2
  unfold ofFilePlans
  rw [hc]
  refine ⟨_, rfl, List.filterMap_eq_nil_iff.2 fun p hp => (h p hp).1, ?_⟩
  rw [← List.filterMap_eq_map]
  refine List.filterMap_congr fun p hp => ?_
  simp [(h p hp).1]

section

variable {files : List File} (hn : (files.map (·.path)).Nodup) (hf : ∀ f ∈ files, Rendered f)
  {m' : Memory} {plan : Plan} {written : List String}
  (hp : ofFiles Memory.store m {} files = .ok plan)
  (hc : plan.commit Memory.store m = (m', .ok written))
include hn hf hp hc

/-- Every file holds a text that is settled for it. -/
theorem exists_leaves : m'.unreadable = m.unreadable ∧ ∃ plans : List FilePlan,
    plan.operations = plans.filterMap (·.operation) ∧
      List.Forall₂ (fun f p => Leaves m f p (m'.text? f.path)) files plans := by
  simp only [ofFiles, bind_ok] at hp
  obtain ⟨plans, hplans, hp⟩ := hp
  rw [mapM_ok] at hplans
  obtain ⟨hconflicts, hops⟩ := ofFilePlans_ok hp
  have hw : Written Memory.store m plan.operations m' := by
    unfold Plan.commit at hc
    split at hc
    · rename_i hall
      obtain ⟨rfl, -⟩ := Prod.mk.inj hc
      exact written_of_commitAfter hall
    · simp at hc
  have hleaves : List.Forall₂ (fun f p =>
      Leaves m f p ((p.operation.map (·.content)).or (m.text? f.path))) files plans := by
    refine List.forall₂_iff_zip.2 ⟨hplans.length_eq, fun {f p} hfp => ?_⟩
    obtain ⟨hfiles, hps⟩ := List.of_mem_zip hfp
    exact leaves_of_planFile (hf f hfiles) (List.forall₂_zip hplans hfp) (hconflicts p hps)
  have htargets : List.Forall₂ Targets files plans := hleaves.imp fun _ _ h => h.targets
  have hafter := Written.after Memory.shows htargets hn (hops ▸ hw)
  refine ⟨hw.unreadable_eq, plans, hops, hleaves.mp ?_ hafter⟩
  intro f p h hview
  exact hview.symm ▸ h

/-- Every file that is there and can be read needs nothing. -/
theorem replan_of_readable (hr : ∀ o ∈ plan.operations, o.mode = .create → o.path ∉ m.unreadable) :
    ∃ again, ofFiles Memory.store m' {} files = .ok again ∧ again.operations = [] ∧
      again.unchanged = files.map (·.path) := by
  obtain ⟨hunreadable, plans, hops, hleaves⟩ := exists_leaves hn hf hp hc
  have hnothing : ∀ f ∈ files, ∃ p, planFile Memory.store m' {} f = .ok p ∧ p.path = f.path ∧
      p.operation = none ∧ p.conflicts = [] := fun f hfm => by
    obtain ⟨p, hpp, h⟩ := forall₂_left hleaves f hfm
    obtain ⟨text, ht, hs⟩ := h.settled
    refine planFile_of_settled ht hs (hunreadable ▸ ?_)
    rcases h.readable with ⟨o, ho, hmode⟩ | hread
    · rw [← h.targets o ho]
      exact hr o (hops ▸ List.mem_filterMap.2 ⟨p, hpp, ho⟩) hmode
    · exact hread
  obtain ⟨plans', hplans'⟩ : ∃ plans', files.mapM (planFile Memory.store m' {}) = .ok plans' :=
    exists_ok (failsOnly_mapM fun f hfm => by
      obtain ⟨p, hfp, -⟩ := hnothing f hfm
      rw [hfp]
      exact failsOnly_ok p)
  have hpaths : List.Forall₂ (fun f p => p.path = f.path ∧ p.operation = none ∧
      p.conflicts = []) files plans' :=
    ((List.forall₂_and_left ..).2 ⟨hnothing, mapM_ok.1 hplans'⟩).imp
      fun f p ⟨⟨q, hq, hrest⟩, hfp⟩ => Except.ok.inj (hq.symm.trans hfp) ▸ hrest
  obtain ⟨again, hagain, hno, hunchanged⟩ := ofFilePlans_of_none fun p hpp => by
    obtain ⟨f, -, -, hrest⟩ := forall₂_right hpaths p hpp
    exact hrest
  refine ⟨again, ?_, hno, ?_⟩
  · simp only [ofFiles, bind_ok]
    exact ⟨plans', hplans', hagain⟩
  · rw [hunchanged]
    exact (forall₂_map hpaths fun f p h => h.1.symm).symm

/-- **Planning once more.** Where a plan was carried out, the same files can be planned again
exactly where no file that the plan created refuses to be read, and then every file stays as it is. -/
theorem replans_iff :
    ((∃ again, ofFiles Memory.store m' {} files = .ok again) ↔
      ∀ o ∈ plan.operations, o.mode = .create → o.path ∉ m.unreadable) ∧
    ∀ again, ofFiles Memory.store m' {} files = .ok again →
      again.operations = [] ∧ again.unchanged = files.map (·.path) := by
  have hreadable : (∃ again, ofFiles Memory.store m' {} files = .ok again) →
      ∀ o ∈ plan.operations, o.mode = .create → o.path ∉ m.unreadable := by
    rintro ⟨again, hagain⟩ o ho - hu
    obtain ⟨hunreadable, plans, hops, hleaves⟩ := exists_leaves hn hf hp hc
    -- the file of the operation is there now, and was read
    obtain ⟨p, hpp, hpo⟩ := List.mem_filterMap.1 (hops ▸ ho)
    obtain ⟨f, hfm, h⟩ := forall₂_right hleaves p hpp
    obtain ⟨text, ht, -⟩ := h.settled
    simp only [ofFiles, bind_ok] at hagain
    obtain ⟨plans', hplans', -⟩ := hagain
    obtain ⟨p', -, hp'⟩ := forall₂_left (mapM_ok.1 hplans') f hfm
    rcases planFile_cases hp' with ⟨hnone, -⟩ | ⟨hread, -⟩
    · rw [hnone] at ht
      cases ht
    · rw [hunreadable, ← h.targets o hpo] at hread
      exact hread hu
  refine ⟨⟨hreadable, fun hr => ?_⟩, fun again hagain => ?_⟩
  · obtain ⟨again, hagain, -⟩ := replan_of_readable hn hf hp hc hr
    exact ⟨again, hagain⟩
  · obtain ⟨again', hagain', hnothing⟩ :=
      replan_of_readable hn hf hp hc (hreadable ⟨again, hagain⟩)
    obtain rfl := Except.ok.inj (hagain'.symm.trans hagain)
    exact hnothing

end

/-- An interface with a method, and a file with an exception. -/
def clock : List File := [
  { path := "clock.py", role := .interface
    blocks := [
      { kind := .header, name := "header", text := "from abc import ABC, abstractmethod\n" },
      { kind := .declaration .interface, name := "Clock", text := "\n\nclass Clock(ABC):\n    ...\n"
        isAbstract := true },
      { kind := .declaration .interfaceMethod, name := "now"
        text := "\n    @abstractmethod\n    def now(self):\n        ...\n" }] },
  { path := "errors.py", role := .errors
    blocks := [
      { kind := .declaration .exception, name := "Late"
        text := "\n\nclass Late(Exception):\n    pass\n" }] }]

theorem rendered_clock : ∀ f ∈ clock, Rendered f := by
  have hends : ∀ f ∈ clock, ∀ b ∈ f.blocks, Text.Packed.endsWith "\n" b.text = true := by
    decide
  have hdeclared : ∀ f ∈ clock, ∀ b ∈ f.blocks, b.kind ≠ .header →
      (isDeclared {} b b.text).toOption = some true := by
    decide
  have habstract : ∀ f ∈ clock, ∀ b ∈ f.blocks, b.isAbstract = true →
      b.kind = .declaration .interface ∧ Found .abstractType b.name b.text := by
    decide
  exact fun f hf => ⟨hends f hf, fun b hb hk => toOption_eq_some.1 (hdeclared f hf b hb hk),
    habstract f hf⟩

/-- A memory whose interface has no line feed at its end. -/
def unfinished : Memory where
  files := [("clock.py", "class Clock(Protocol): pass")]

theorem commit_clock : ∃ plan ∈ (ofFiles Memory.store unfinished {} clock).toOption,
    (plan.commit Memory.store unfinished).2.toOption = some ["clock.py", "errors.py"] := by
  decide

theorem replans_clock : ∃ plan m' written, (clock.map (·.path)).Nodup ∧
    ofFiles Memory.store unfinished {} clock = .ok plan ∧
      plan.commit Memory.store unfinished = (m', .ok written) ∧
        ((∃ again, ofFiles Memory.store m' {} clock = .ok again) ↔
          ∀ o ∈ plan.operations, o.mode = .create → o.path ∉ unfinished.unreadable) ∧
        ∀ again, ofFiles Memory.store m' {} clock = .ok again →
          again.operations = [] ∧ again.unchanged = clock.map (·.path) := by
  obtain ⟨plan, hplan, hwritten⟩ := commit_clock
  have hn : (clock.map (·.path)).Nodup := by decide
  have hp : ofFiles Memory.store unfinished {} clock = .ok plan := toOption_eq_some.1 hplan
  have hc : plan.commit Memory.store unfinished =
      ((plan.commit Memory.store unfinished).1, .ok ["clock.py", "errors.py"]) :=
    Prod.ext rfl (toOption_eq_some.1 hwritten)
  exact ⟨plan, _, _, hn, hp, hc, replans_iff hn rendered_clock hp hc⟩

/-- A memory that refuses to read a file which is not there. -/
def locked : Memory where
  unreadable := ["errors.py"]

theorem commit_locked : ∃ plan ∈ (ofFiles Memory.store locked {} clock).toOption,
    (plan.commit Memory.store locked).2.toOption = some ["clock.py", "errors.py"] ∧
      (ofFiles Memory.store (plan.commit Memory.store locked).1 {} clock).toOption = none := by
  decide

/-- Files cannot always be planned again. -/
theorem not_replans_locked : ¬ ∀ (files : List File) (m m' : Memory) (plan : Plan)
    (written : List String), (files.map (·.path)).Nodup → (∀ f ∈ files, Rendered f) →
      ofFiles Memory.store m {} files = .ok plan →
        plan.commit Memory.store m = (m', .ok written) →
          ∃ again, ofFiles Memory.store m' {} files = .ok again ∧ again.operations = [] := by
  intro h
  obtain ⟨plan, hplan, hwritten, hnone⟩ := commit_locked
  obtain ⟨again, hagain, -⟩ := h clock locked _ plan _ (by decide) rendered_clock
    (toOption_eq_some.1 hplan) (Prod.ext rfl (toOption_eq_some.1 hwritten))
  rw [hagain] at hnone
  cases hnone

end Lifeline.Plan
