import Lifeline.Proofs.Plan.Settled
import Lifeline.Proofs.Store.Decode
import Lifeline.Proofs.Store.Replace

/-!
# What a plan does to the bytes of files

A plan for a directory (`Store.Backed`: any system call of a write may fail) reads the files that
are there as texts, and extends the texts or puts them back. A file that the run does not touch
keeps its bytes, and so does one without carriage returns: they are the beginning of its new bytes
when the plan is carried out, and they are back when it is not. The line endings of all other files
are lost, which is why both fail there (`keeps_iff_of_commit`, `not_kept_carriageReturn`).
-/

set_option autoImplicit false

namespace Lifeline

open Store (Directory Fault Path)

/-- A store that keeps its files in a directory. Any system call of a write may fail, and so may a
removal. -/
structure Store.Backed {σ : Type} (store : Store σ) (dir : σ → Directory) : Prop where
  isFile : ∀ s path, store.isFile s path = (dir s).isFile path
  read : ∀ s path, store.read s path = (dir s).read path
  write : ∀ {s s' path text r}, Directory.isValid path = true →
    store.write s path text = (s', r) →
      ∃ fails, (dir s).replace fails (.ofString path) text.toUTF8 = (dir s', r)
  remove : ∀ {s s' path r}, store.remove s path = (s', r) →
    (dir s).remove path = (dir s', r) ∨ dir s' = dir s

theorem Store.Directory.backed : Directory.store.Backed id where
  isFile _ _ := rfl
  read _ _ := rfl
  write := by
    intro d d' path text r hp h
    refine ⟨fun _ => false, ?_⟩
    simp only [store, Directory.write, hp, if_true] at h
    exact h
  remove h := .inl h

/-! ## Directories whose calls fail -/

/-- A directory, and which system calls fail in the next writes. All calls after these succeed. -/
structure Store.Flaky where
  directory : Directory
  script : List (Directory.Call → Bool)

namespace Store.Flaky

/-- A directory whose calls fail as a store. -/
def store : Store Flaky where
  isFile m := m.directory.isFile
  read m := m.directory.read
  write m path text :=
    if Directory.isValid path then
      let fails := m.script.headD fun _ => false
      let (d, r) := m.directory.replace fails (.ofString path) text.toUTF8
      (⟨d, m.script.tail⟩, r)
    else (m, .error .invalidPath)
  remove m path :=
    let (d, r) := m.directory.remove path
    (⟨d, m.script⟩, r)

theorem backed : store.Backed directory where
  isFile _ _ := rfl
  read _ _ := rfl
  write := by
    intro m m' path text r hp h
    refine ⟨m.script.headD fun _ => false, ?_⟩
    simp only [store, hp, if_true] at h
    obtain ⟨rfl, rfl⟩ := Prod.mk.inj h
    rfl
  remove := by
    intro m m' path r h
    obtain ⟨rfl, rfl⟩ := Prod.mk.inj h
    exact .inl rfl

end Store.Flaky

namespace Plan

variable {σ : Type} {store : Store σ} {dir : σ → Directory} (hb : store.Backed dir)
  {s s' : σ} {o : Operation} {ops : List Operation} {path : Path} (hpath : path.Direct)
  {b : ByteArray} {mode : Nat}

/-- A path that can be asked for, and that leads down name by name. -/
def Reachable (path : String) : Prop :=
  Directory.isValid path = true ∧ (Path.ofString path).Direct

instance (path : String) : Decidable (Reachable path) := inferInstanceAs (Decidable (_ ∧ _))

/-- A file that is there, with its bytes and its permission bits. -/
abbrev Holds (d : Directory) (path : Path) (b : ByteArray) (mode : Nat) : Prop :=
  d.find path = .ok (.file b mode)

/-! ## One call -/

section

include hb hpath

omit hpath in
/-- A write only fails by being refused. -/
theorem write_refused {text : String} {e : Fault} (ho : Reachable o.path)
    (h : store.write s o.path text = (s', .error e)) : ∃ reason, e = .refused reason := by
  obtain ⟨fails, hr⟩ := hb.write ho.1 h
  exact ⟨none, (Directory.replace_error hr).1⟩

/-- A write that fails changes no file. -/
theorem write_error {text : String} {e : Fault} (ho : Reachable o.path)
    (h : store.write s o.path text = (s', .error e)) (hf : Holds (dir s) path b mode) :
    Holds (dir s') path b mode := by
  obtain ⟨fails, hr⟩ := hb.write ho.1 h
  obtain ⟨-, hkeeps⟩ := Directory.replace_error hr
  exact Directory.find_kept hpath hkeeps.directories hf
    (hkeeps _ _ (Directory.node?_of_find hpath hf).2)

/-- A write that succeeds changes the bytes of its own file, and of no other one. -/
theorem write_ok {text : String} (ho : Reachable o.path)
    (h : store.write s o.path text = (s', .ok ())) (hf : Holds (dir s) path b mode) :
    Holds (dir s') path (if .ofString o.path = path then text.toUTF8 else b) mode := by
  obtain ⟨fails, hr⟩ := hb.write ho.1 h
  obtain ⟨hroot, hreplaced⟩ := Directory.replace_ok ho.2 hr
  obtain ⟨hroot', hnode⟩ := Directory.node?_of_find hpath hf
  refine Directory.find_kept hpath hreplaced.directories hf ?_
  split
  · rename_i hsame
    obtain ⟨m, hown, hmode⟩ := hreplaced.own
    rw [hsame] at hown hmode
    rw [hown, hmode b mode hnode]
  · rename_i hne
    exact hreplaced.others _ _
      (fun hnames => hne (Path.eq_of_names hroot hroot' hnames.symm)) hnode

/-- What undoing an operation leaves of a file: its text where the operation knows it, and the file
as it was where the undoing fails. -/
theorem undo_holds {text : String} {r : Except Fault Unit} (ho : Reachable o.path)
    (hknown : .ofString o.path = path → o.previous = some text)
    (h : o.undo store s = (s', r)) (hf : Holds (dir s) path b mode) :
    Holds (dir s') path (if .ofString o.path = path ∧ r = .ok () then text.toUTF8 else b) mode := by
  unfold Operation.undo at h
  cases hprevious : o.previous with
  | none =>
    have hne : .ofString o.path ≠ path := fun he => by simp [hprevious] at hknown; exact hknown he
    rw [if_neg fun hand => hne hand.1]
    rw [hprevious] at h
    rcases hb.remove h with hr | hsame
    · have := Directory.remove_find hpath ho.2 hne hf
      rwa [hr] at this
    · rwa [Holds, hsame]
  | some old =>
    rw [hprevious] at h
    cases r with
    | ok u =>
      have hw := write_ok hb hpath ho h hf
      by_cases hsame : .ofString o.path = path
      · obtain rfl := Option.some.inj (hprevious.symm.trans (hknown hsame))
        simpa [hsame] using hw
      · simpa [hsame] using hw
    | error e => simpa using write_error hb hpath ho h hf

/-! ## All calls -/

/-- A file after operations that were all written: as it was, or as one of them wrote it. -/
theorem written_holds (ho : ∀ o ∈ ops, Reachable o.path) (h : Written store s ops s')
    (hf : Holds (dir s) path b mode) : ∃ b', Holds (dir s') path b' mode ∧
      ((b' = b ∧ ∀ o ∈ ops, .ofString o.path ≠ path) ∨
        ∃ o ∈ ops, .ofString o.path = path ∧ b' = o.content.toUTF8) := by
  induction h generalizing b with
  | nil => exact ⟨b, hf, .inl ⟨rfl, by simp⟩⟩
  | @cons s s₁ s₂ o rest hw _ ih =>
    obtain ⟨ho, hrest⟩ := List.forall_mem_cons.1 ho
    obtain ⟨b', hf', hcase⟩ := ih hrest (write_ok hb hpath ho hw hf)
    refine ⟨b', hf', ?_⟩
    rcases hcase with ⟨rfl, hothers⟩ | ⟨x, hx, hsame, hcontent⟩
    · by_cases hsame : .ofString o.path = path
      · exact .inr ⟨o, .head _, hsame, if_pos hsame⟩
      · exact .inl ⟨if_neg hsame, List.forall_mem_cons.2 ⟨hsame, hothers⟩⟩
    · exact .inr ⟨x, .tail _ hx, hsame, hcontent⟩

/-- A file after operations were undone that all know its text, where none of its paths is named:
it has the text, or no operation was about it. -/
theorem restore_holds {text : String} (ho : ∀ o ∈ ops, Reachable o.path)
    (hknown : ∀ o ∈ ops, .ofString o.path = path → o.previous = some text)
    (hf : Holds (dir s) path b mode) (hq : ∀ u ∈ (restore store s ops).2, .ofString u ≠ path) :
    Holds (dir (restore store s ops).1) path
      (if ∃ o ∈ ops, .ofString o.path = path then text.toUTF8 else b) mode := by
  induction ops generalizing s b with
  | nil => simpa [restore] using hf
  | cons o rest ih =>
    obtain ⟨ho, hrest⟩ := List.forall_mem_cons.1 ho
    obtain ⟨hknown, hknownrest⟩ := List.forall_mem_cons.1 hknown
    rcases hu : o.undo store s with ⟨s₁, r⟩
    have hf₁ := undo_holds hb hpath ho hknown hu hf
    unfold restore at hq ⊢
    rw [hu] at hq ⊢
    cases r with
    | ok u =>
      have := ih hrest hknownrest hf₁ hq
      by_cases hsame : .ofString o.path = path
      · simpa [hsame] using this
      · simpa [hsame] using this
    | error e =>
      obtain ⟨hne, hq⟩ := List.forall_mem_cons.1 hq
      have := ih hrest hknownrest hf₁ hq
      simpa [hne] using this

end

/-! ## What is planned -/

variable {d : Declarations} {files : List Source.File} {plan : Plan}

theorem mem_operations (hplan : ofFiles store s d files = .ok plan) (ho : o ∈ plan.operations) :
    ∃ f ∈ files, ∃ p, planFile store s d f = .ok p ∧ p.operation = some o ∧ o.path = f.path := by
  simp only [ofFiles, bind_ok] at hplan
  obtain ⟨plans, hplans, hplan⟩ := hplan
  rw [(ofFilePlans_ok hplan).2, List.mem_filterMap] at ho
  obtain ⟨p, hp, hop⟩ := ho
  obtain ⟨f, hf, hfp⟩ := forall₂_right (mapM_ok.1 hplans) p hp
  refine ⟨f, hf, p, hfp, hop, ?_⟩
  unfold planFile at hfp
  split at hfp
  · cases hfp
  · cases hfp
    cases hop
    rfl
  · split at hfp
    · cases hfp
    · cases hfp
    · obtain ⟨-, -, _, -, -, hcase⟩ := extendFile_cases hfp
      rcases hcase with ⟨-, hnone⟩ | ⟨x, hx, hpath, -⟩
      · cases hnone.symm.trans hop
      · cases hx.symm.trans hop
        exact hpath

/-- An operation on a file that is there knows its text, and writes that text with more behind
it. -/
theorem planned_of_holds (hb : store.Backed dir) (hplan : ofFiles store s d files = .ok plan)
    (ho : o ∈ plan.operations) (hvalid : Reachable o.path)
    (hf : Holds (dir s) (.ofString o.path) b mode) : ∃ text rest,
      Directory.decode b = .ok text ∧ o.previous = some text ∧ o.content = text ++ rest := by
  obtain ⟨f, -, p, hfp, hop, hpath⟩ := mem_operations hplan ho
  have hfile : store.isFile s f.path = .ok true := by
    rw [hb.isFile, ← hpath, Directory.isFile, if_pos hvalid.1, hf]
  have hread : store.read s f.path = Directory.decode b := by
    rw [hb.read, ← hpath, Directory.read, if_pos hvalid.1, hf]
  unfold planFile at hfp
  rw [hfile, hread] at hfp
  cases htext : Directory.decode b with
  | error e =>
    rw [htext] at hfp
    cases e <;> cases hfp
  | ok text =>
    rw [htext] at hfp
    obtain ⟨-, -, missing, -, -, hcase⟩ := extendFile_cases hfp
    rcases hcase with ⟨-, hnone⟩ | ⟨x, hx, -, -, hprevious, hcontent⟩
    · cases hnone.symm.trans hop
    · cases hx.symm.trans hop
      unfold endLine at hcontent
      split at hcontent
      · exact ⟨text, _, rfl, hprevious, hcontent⟩
      · exact ⟨text, _, rfl, hprevious, hcontent.trans String.append_assoc⟩

/-- A file that was written to begins with its old bytes where nothing was done about it, or where
no carriage return is in them. -/
theorem extended_iff (hb : store.Backed dir) (hpath : path.Direct) {ops : List Operation} {s' : σ}
    (hreach : ∀ o ∈ ops, Reachable o.path) (hw : Written store s ops s')
    (hf : Holds (dir s) path b mode)
    (hknown : ∀ o ∈ ops, .ofString o.path = path → ∃ text rest,
      Directory.decode b = .ok text ∧ o.previous = some text ∧ o.content = text ++ rest) :
    ∃ b', Holds (dir s') path b' mode ∧ ((∃ more, b' = b ++ more) ↔
      (∀ o ∈ ops, .ofString o.path ≠ path) ∨ ¬ Directory.HasReturn b) := by
  obtain ⟨b', hf', hcase⟩ := written_holds hb hpath hreach hw hf
  refine ⟨b', hf', ?_⟩
  rcases hcase with ⟨rfl, hothers⟩ | ⟨o, ho, hsame, rfl⟩
  · exact iff_of_true ⟨.empty, ByteArray.append_empty.symm⟩ (.inl hothers)
  · obtain ⟨text, rest, htext, -, hcontent⟩ := hknown o ho hsame
    rw [hcontent, Directory.begins_decode_iff htext rest]
    exact ⟨.inr, fun h => h.resolve_left fun hothers => hothers o ho hsame⟩

/-- **A file that is put back** has its old bytes where nothing was done about it, or where no
carriage return is in them. -/
theorem restored_iff (hb : store.Backed dir) (hpath : path.Direct) {pre : List Operation}
    {s₁ s₂ : σ} {e : Fault} (hreach : ∀ x ∈ o :: pre.reverse, Reachable x.path)
    (hpre : Written store s pre s₁) (hw : store.write s₁ o.path o.content = (s₂, .error e))
    (hf : Holds (dir s) path b mode)
    (hknown : ∀ x ∈ o :: pre.reverse, .ofString x.path = path → ∃ text rest,
      Directory.decode b = .ok text ∧ x.previous = some text ∧ x.content = text ++ rest)
    (hnamed : ∀ u ∈ (restore store s₂ (o :: pre.reverse)).2, .ofString u ≠ path) :
    ∃ b', Holds (dir (restore store s₂ (o :: pre.reverse)).1) path b' mode ∧
      (b' = b ↔
        (∀ x ∈ o :: pre.reverse, .ofString x.path ≠ path) ∨ ¬ Directory.HasReturn b) := by
  have hwritten : ∀ x ∈ pre, x ∈ o :: pre.reverse := fun x hx => .tail _ (List.mem_reverse.2 hx)
  obtain ⟨b₁, hf₁, hcase⟩ :=
    written_holds hb hpath (fun x hx => hreach x (hwritten x hx)) hpre hf
  have hf₂ := write_error hb hpath (hreach o (.head _)) hw hf₁
  by_cases htouched : ∃ x ∈ o :: pre.reverse, .ofString x.path = path
  · -- every operation on the file knows its text, so it does not matter which is undone last
    obtain ⟨x, hx, hsame⟩ := htouched
    obtain ⟨text, _, htext, -, -⟩ := hknown x hx hsame
    have hprevious : ∀ y ∈ o :: pre.reverse, .ofString y.path = path →
        y.previous = some text := fun y hy hy' => by
      obtain ⟨text', _, htext', hprevious, -⟩ := hknown y hy hy'
      rw [hprevious, Except.ok.inj (htext'.symm.trans htext)]
    have hrestored := restore_holds hb hpath hreach hprevious hf₂ hnamed
    rw [if_pos ⟨x, hx, hsame⟩] at hrestored
    refine ⟨_, hrestored, ?_⟩
    rw [Directory.toUTF8_decode_iff htext]
    exact ⟨.inr, fun h => h.resolve_left fun hothers => hothers x hx hsame⟩
  · have hothers : ∀ x ∈ o :: pre.reverse, .ofString x.path ≠ path := fun x hx hsame =>
      htouched ⟨x, hx, hsame⟩
    have hprevious : ∀ x ∈ o :: pre.reverse, .ofString x.path = path → x.previous = some "" :=
      fun x hx hsame => absurd hsame (hothers x hx)
    have hrestored := restore_holds hb hpath hreach hprevious hf₂ hnamed
    rw [if_neg htouched] at hrestored
    refine ⟨_, hrestored, iff_of_true ?_ (.inl hothers)⟩
    rcases hcase with ⟨rfl, -⟩ | ⟨x, hx, hsame, -⟩
    · rfl
    · exact absurd hsame (hothers x (hwritten x hx))

/-- **Old bytes are kept where there are no carriage returns**, whichever calls fail. After a plan
was carried out, a file begins with its old bytes exactly where no operation is on it or no carriage
return is in them. Where the plan fails, a write was refused, and a file whose path is not among the
unrestored ones has its old bytes exactly where no operation up to that write is on it or no
carriage return is in them. -/
theorem keeps_iff_of_commit (hb : store.Backed dir) (hfiles : ∀ f ∈ files, Reachable f.path)
    (hplan : ofFiles store s d files = .ok plan) :
    (∀ paths, (plan.commit store s).2 = .ok paths → ∀ path b mode, path.Direct →
      Holds (dir s) path b mode → ∃ b', Holds (dir (plan.commit store s).1) path b' mode ∧
        ((∃ more, b' = b ++ more) ↔
          (∀ o ∈ plan.operations, .ofString o.path ≠ path) ∨ ¬ Directory.HasReturn b)) ∧
    (∀ e, (plan.commit store s).2 = .error e → ∃ pre o post reason,
      plan.operations = pre ++ o :: post ∧ e = .unwritable o.path reason e.unrestored ∧
        ∀ path b mode, path.Direct → Holds (dir s) path b mode →
          (∀ u ∈ e.unrestored, .ofString u ≠ path) →
            ∃ b', Holds (dir (plan.commit store s).1) path b' mode ∧
              (b' = b ↔
                (∀ x ∈ pre ++ [o], .ofString x.path ≠ path) ∨ ¬ Directory.HasReturn b)) := by
  have hreach : ∀ o ∈ plan.operations, Reachable o.path := fun o ho => by
    obtain ⟨f, hf, _, _, _, hpath⟩ := mem_operations hplan ho
    exact hpath ▸ hfiles f hf
  have hknown : ∀ {path b mode}, Holds (dir s) path b mode → ∀ o ∈ plan.operations,
      .ofString o.path = path → ∃ text rest,
        Directory.decode b = .ok text ∧ o.previous = some text ∧ o.content = text ++ rest := by
    rintro _ b mode hf o ho rfl
    exact planned_of_holds hb hplan ho (hreach o ho) hf
  rcases hc : commitAfter store [] s plan.operations with ⟨s', r⟩
  unfold commit
  rw [hc]
  cases r with
  | ok u =>
    exact ⟨fun paths _ path b mode hpath hf =>
      extended_iff hb hpath hreach (written_of_commitAfter hc) hf (hknown hf), nofun⟩
  | error e =>
    refine ⟨nofun, fun e' he' => ?_⟩
    cases he'
    obtain ⟨pre, o, post, s₁, s₂, reason, hops, hpre, hw, hres, he⟩ :=
      refused_of_commitAfter (fun o ho => write_refused hb (hreach o ho)) hc
    refine ⟨pre, o, post, reason, hops, he, fun path b mode hpath hf hnamed => ?_⟩
    rw [List.append_nil] at hres
    have hmem : ∀ x ∈ o :: pre.reverse, x ∈ plan.operations := fun x hx => by
      rw [hops, List.mem_append, List.mem_cons]
      rcases List.mem_cons.1 hx with rfl | hx
      · exact .inr (.inl rfl)
      · exact .inl (List.mem_reverse.1 hx)
    obtain ⟨b', hf', hiff⟩ := restored_iff hb hpath (fun x hx => hreach x (hmem x hx)) hpre hw hf
      (fun x hx hsame => hknown hf x (hmem x hx) hsame) (by rwa [hres])
    rw [hres] at hf'
    refine ⟨b', hf', hiff.trans (or_congr_left ⟨fun h x hx => h x ?_, fun h x hx => h x ?_⟩)⟩
    · simpa [or_comm] using hx
    · simpa [or_comm] using hx

/-- A file that gets an exception, and a new file. -/
def errors : List Source.File := [
  { path := "app/errors.py", role := .implementation, blocks := [
      { kind := .declaration .exception, name := "Late",
        text := "\n\nclass Late(Exception):\n    pass\n" }] },
  { path := "app/late.py", role := .implementation, blocks := [
      { kind := .header, name := "header", text := "from app.errors import Late\n" }] }]

/-- A directory with that file, which has one line and its line end. -/
def imports (lineEnd : String) : Directory :=
  .ofFiles [("app/errors.py", some ("import os" ++ lineEnd).toUTF8)]

/-- A directory in which the second write cannot put its file in place. -/
def stuck (d : Directory) : Store.Flaky where
  directory := d
  script := [fun _ => false, fun call => call == .rename]

/-- The bytes of a file and its permission bits, where it is there. -/
def file? (d : Directory) (path : String) : Option (ByteArray × Nat) :=
  match d.find (.ofString path) with
  | .ok (.file b mode) => some (b, mode)
  | _ => none

theorem holds_of_file? {d : Directory} {name : String} (h : file? d name = some (b, mode)) :
    Holds d (.ofString name) b mode := by
  unfold file? at h
  split at h
  · obtain ⟨rfl, rfl⟩ := Prod.mk.inj (Option.some.inj h)
    assumption
  · cases h

theorem reachable_errors : ∀ f ∈ errors, Reachable f.path := by
  decide +kernel

/-- With either line end the plan is carried out, and put back where its second write is stuck. Both
leave a line feed at the end of the line. -/
theorem commit_errors : ∀ lineEnd ∈ ["\n", "\r\n"],
    file? (imports lineEnd) "app/errors.py" = some (("import os" ++ lineEnd).toUTF8, 0o644) ∧
    (∃ plan ∈ (ofFiles Directory.store (imports lineEnd) {} errors).toOption,
      (plan.commit Directory.store (imports lineEnd)).2 = .ok ["app/errors.py", "app/late.py"] ∧
      file? (plan.commit Directory.store (imports lineEnd)).1 "app/errors.py" =
        some ("import os\n\n\nclass Late(Exception):\n    pass\n".toUTF8, 0o644)) ∧
    ∃ plan ∈ (ofFiles Store.Flaky.store (stuck (imports lineEnd)) {} errors).toOption,
      (plan.commit Store.Flaky.store (stuck (imports lineEnd))).2 =
        .error (.unwritable "app/late.py" none []) ∧
      file? (plan.commit Store.Flaky.store (stuck (imports lineEnd))).1.directory "app/errors.py" =
        some ("import os\n".toUTF8, 0o644) := by
  decide +kernel

theorem keeps_iff_stuck : ∃ plan e, (∀ f ∈ errors, Reachable f.path) ∧
    ofFiles Store.Flaky.store (stuck (imports "\n")) {} errors = .ok plan ∧
      (plan.commit Store.Flaky.store (stuck (imports "\n"))).2 = .error e ∧ e.unrestored = [] ∧
        Holds (imports "\n") (.ofString "app/errors.py") "import os\n".toUTF8 0o644 ∧
        Holds (plan.commit Store.Flaky.store (stuck (imports "\n"))).1.directory
          (.ofString "app/errors.py") "import os\n".toUTF8 0o644 := by
  obtain ⟨hfile, -, plan, hplan, hcommit, -⟩ := commit_errors "\n" (by simp)
  have hf := holds_of_file? hfile
  have hp := toOption_eq_some.1 hplan
  obtain ⟨-, hfailed⟩ := keeps_iff_of_commit Store.Flaky.backed reachable_errors hp
  obtain ⟨_, _, _, _, -, -, hkept⟩ := hfailed _ hcommit
  obtain ⟨b', hf', hiff⟩ := hkept _ _ _ (by decide +kernel) hf (by simp [Error.unrestored])
  obtain rfl := hiff.2 (.inr (by decide +kernel))
  exact ⟨plan, _, reachable_errors, hp, hcommit, rfl, hf, hf'⟩

/-- A file with a carriage return loses it, whether the plan is carried out or put back. -/
theorem not_kept_carriageReturn :
    Holds (imports "\r\n") (.ofString "app/errors.py") "import os\r\n".toUTF8 0o644 ∧
    (∃ plan paths b, ofFiles Directory.store (imports "\r\n") {} errors = .ok plan ∧
      (plan.commit Directory.store (imports "\r\n")).2 = .ok paths ∧
        Holds (plan.commit Directory.store (imports "\r\n")).1 (.ofString "app/errors.py") b 0o644 ∧
          ¬ ∃ more, b = "import os\r\n".toUTF8 ++ more) ∧
    ∃ plan e b, ofFiles Store.Flaky.store (stuck (imports "\r\n")) {} errors = .ok plan ∧
      (plan.commit Store.Flaky.store (stuck (imports "\r\n"))).2 = .error e ∧ e.unrestored = [] ∧
        Holds (plan.commit Store.Flaky.store (stuck (imports "\r\n"))).1.directory
          (.ofString "app/errors.py") b 0o644 ∧ b ≠ "import os\r\n".toUTF8 := by
  obtain ⟨hfile, ⟨plan, hplan, hcommit, hnew⟩, plan', hplan', hcommit', hback⟩ :=
    commit_errors "\r\n" (by simp)
  refine ⟨holds_of_file? hfile, ⟨plan, _, _, toOption_eq_some.1 hplan, hcommit,
    holds_of_file? hnew, fun ⟨more, hmore⟩ => ?_⟩, plan', _, _, toOption_eq_some.1 hplan',
    hcommit', rfl, holds_of_file? hback, by decide +kernel⟩
  have hbytes := congrArg (fun b : ByteArray => b.data.toList.take 10) hmore
  simp only [ByteArray.toList_data_append] at hbytes
  rw [List.take_append_of_le_length (by decide +kernel)] at hbytes
  revert hbytes
  decide +kernel

end Plan

end Lifeline
