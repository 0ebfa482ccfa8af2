import Lifeline.Proofs.Plan.Bytes
import Lifeline.Run.Load

/-!
# Input files that cannot be used

A run reads a configuration, a profile and the files that it extends. What is wrong with one of
these is reported as a fault of the configuration, of the profile or of the target that cannot be
read; what a reader has no word for comes out as it is (`Reported` tells them apart).

A refusal by the system is always reported, and so are faults in the YAML, the fields and their
values. What is not: bytes that write no text (`Directory.Garbled`), paths with a zero character in
them, and fields whose names are no texts. `reports_iff` says so of all three readers, and
`not_reports_garbled` shows a directory where none of them reports.
-/

set_option autoImplicit false

namespace Lifeline

open Store (Directory Fault Path)

/-! ## Reading a file -/

namespace Store

/-- The system refuses what it is asked. -/
def Fault.IsRefusal : Fault → Prop
  | .refused _ => True
  | .notText | .invalidPath => False

namespace Directory

/-- There is a file under a path, and its bytes write no text. -/
def Garbled (d : Directory) (path : String) : Prop :=
  ∃ bytes mode, d.find (.ofString path) = .ok (.file bytes mode) ∧
    String.fromUTF8? bytes = none

/-- A path that can be asked for, without a garbled file under it. -/
def Legible (d : Directory) (path : String) : Prop := isValid path = true ∧ ¬ d.Garbled path

variable {d : Directory} {path : String}

theorem decode_error {bytes : ByteArray} {e : Fault} :
    decode bytes = .error e ↔ e = .notText ∧ String.fromUTF8? bytes = none := by
  unfold decode
  cases String.fromUTF8? bytes <;> simp [eq_comm]

theorem read_invalidPath_iff : d.read path = .error .invalidPath ↔ isValid path = false := by
  unfold read
  by_cases hv : isValid path = true
  · rw [if_pos hv, hv]
    split
    · simp [decode_error]
    · simp [refused]
  · simp [hv]

theorem read_notText_iff :
    d.read path = .error .notText ↔ isValid path = true ∧ d.Garbled path := by
  unfold read
  by_cases hv : isValid path = true
  · rw [if_pos hv, and_iff_right hv]
    split
    · rename_i bytes mode hfile
      rw [decode_error, and_iff_right rfl]
      constructor
      · intro h
        exact ⟨bytes, mode, hfile, h⟩
      · intro ⟨bytes', mode', hfile', h⟩
        obtain ⟨rfl, -⟩ := Node.file.inj (Except.ok.inj (hfile.symm.trans hfile'))
        exact h
    · rename_i hno
      refine iff_of_false (by simp [refused]) ?_
      intro ⟨bytes, mode, hfile, _⟩
      exact hno bytes mode hfile
  · simp [hv]

/-- **Reading fails by a refusal only** where the path is legible. -/
theorem read_refusal_iff : FailsOnly Fault.IsRefusal (d.read path) ↔ d.Legible path := by
  constructor
  · intro h
    have hv : isValid path = true := by
      by_contra hv
      exact h _ (read_invalidPath_iff.2 (Bool.eq_false_iff.2 hv))
    refine ⟨hv, fun hg => ?_⟩
    exact h _ (read_notText_iff.2 ⟨hv, hg⟩)
  · intro ⟨hv, hg⟩ e he
    cases e with
    | refused reason => trivial
    | notText => exact hg (read_notText_iff.1 he).2
    | invalidPath => cases hv.symm.trans (read_invalidPath_iff.1 he)

end Directory

end Store

/-! ## Profiles -/

namespace Profile

/-- A failure that is said to be one of the profile. -/
def LoadError.Reported : LoadError → Prop
  | .fault _ => False
  | .unreadable _ | .malformed _ | .notMap _ | .faulty _ _ => True

variable {d : Directory} {path : Path}

theorem ofText_reported (path text : String) : FailsOnly LoadError.Reported (ofText path text) := by
  intro e he
  unfold ofText at he
  split at he
  · cases he
    trivial
  · split at he
    · cases he
    · split at he
      · cases he
      · cases he
        trivial
    · cases he
      trivial

/-- A profile is refused with a report where its file is legible. -/
theorem load_reported_iff :
    FailsOnly LoadError.Reported (load d path) ↔ d.Legible path.text := by
  rw [← Store.Directory.read_refusal_iff]
  unfold load
  split
  · rename_i reason hread
    rw [hread]
    exact iff_of_true (failsOnly_error trivial) (failsOnly_error trivial)
  · rename_i fault hno hread
    rw [hread]
    refine iff_of_false (fun h => h _ rfl) (fun h => ?_)
    cases fault with
    | refused reason => exact hno reason rfl
    | notText => exact h _ rfl
    | invalidPath => exact h _ rfl
  · rename_i text hread
    rw [hread]
    exact iff_of_true (ofText_reported _ _) (failsOnly_ok _)

end Profile

/-! ## Configurations -/

namespace Run.Config

/-- A failure that is said to be one of the configuration. -/
def LoadError.Reported : LoadError → Prop
  | .fault _ | .unnamedField => False
  | .profile _ e => e.Reported
  | .missing _ | .unreadable | .malformed _ | .notMap _ | .unknownFields _ _ | .notText _ _
  | .notTruth _ _ | .notTexts _ _ | .notDotted _ _ => True

variable {d : Directory} {path : String} {root : Path} {entries : Data.Entries}

theorem textField_reported (path : String) (entries : Data.Entries) (field default : String) :
    FailsOnly LoadError.Reported (textField path entries field default) := by
  unfold textField
  split
  · exact failsOnly_ok _
  · exact failsOnly_ok _
  · exact failsOnly_error trivial

theorem truthField_reported (path : String) (entries : Data.Entries) (field : String) :
    FailsOnly LoadError.Reported (truthField path entries field) := by
  unfold truthField
  split
  · exact failsOnly_ok _
  · exact failsOnly_ok _
  · exact failsOnly_error trivial

theorem textsField_reported (path : String) (entries : Data.Entries) (field : String) :
    FailsOnly LoadError.Reported (textsField path entries field) := by
  unfold textsField
  split
  · exact failsOnly_ok _
  · split
    · exact failsOnly_ok _
    · exact failsOnly_error trivial

/-- All fields are fields of a configuration. -/
def Known (entries : Data.Entries) : Prop := ∀ e ∈ entries, ∃ name ∈ fieldNames, e.1 = .text name

/-- All fields are named by texts. -/
def Named (entries : Data.Entries) : Prop := ∀ e ∈ entries, ∃ name, e.1 = .text name

theorem checkFields_ok : checkFields path entries = .ok () ↔ Known entries := by
  have hunknown : (entries.filter fun e => !fieldNames.any fun name => e.1 == .text name) = [] ↔
      Known entries := by
    simp [List.filter_eq_nil_iff, Known]
  rw [← hunknown]
  unfold checkFields
  dsimp only
  split
  · rename_i hempty
    simpa using hempty
  · rename_i hempty
    refine iff_of_false ?_ (by simpa using hempty)
    split <;> simp

/-- Fields that mean nothing are reported where texts name them. -/
theorem checkFields_reported_iff :
    FailsOnly LoadError.Reported (checkFields path entries) ↔ Named entries := by
  unfold checkFields
  generalize hunknown : (entries.filter fun e => !fieldNames.any fun name => e.1 == .text name) =
    unknown
  dsimp only
  have hnamed : Named entries ↔ ∀ e ∈ unknown, ∃ name, e.1 = .text name := by
    rw [← hunknown]
    constructor
    · intro h e he
      exact h e (List.mem_filter.1 he).1
    · intro h e he
      by_cases hk : fieldNames.any (fun name => e.1 == .text name) = true
      · obtain ⟨name, -, hname⟩ := List.any_eq_true.1 hk
        exact ⟨name, beq_iff_eq.1 hname⟩
      · exact h e (List.mem_filter.2 ⟨he, by simpa using hk⟩)
  rw [hnamed]
  split
  · rename_i hempty
    obtain rfl := List.isEmpty_iff.1 hempty
    exact iff_of_true (failsOnly_ok _) (by simp)
  · split
    · rename_i hfewer
      refine iff_of_false (fun h => h _ rfl) (fun h => ?_)
      obtain ⟨e, he, hnone⟩ := List.length_filterMap_lt_length_iff_exists.1 hfewer
      obtain ⟨name, hname⟩ := h e he
      rw [hname] at hnone
      cases hnone
    · rename_i hfewer
      refine iff_of_true (failsOnly_error trivial) fun e he => ?_
      by_contra hunnamed
      refine hfewer (List.length_filterMap_lt_length_iff_exists.2 ⟨e, he, ?_⟩)
      cases hkey : e.1 with
      | text name => exact absurd ⟨name, hkey⟩ hunnamed
      | int _ | shown _ => rfl

/-- The profile is refused with a report where the file that is named is legible. -/
theorem profileField_reported_iff :
    FailsOnly LoadError.Reported (profileField d path root entries) ↔
      ∀ file, Data.find? entries "profile" = some (.text file) →
        d.Legible (root.append (.ofString file)).text := by
  unfold profileField
  cases hfield : Data.find? entries "profile" with
  | none =>
    rw [Option.isNone_none, if_pos rfl]
    exact iff_of_true (failsOnly_ok _) (by simp)
  | some x =>
    rw [Option.isNone_some, if_neg Bool.false_ne_true, failsOnly_bind_iff,
      and_iff_right (textField_reported _ _ _ _)]
    have htext : ∀ file, textField path entries "profile" "" = .ok file ↔
        some x = some (.text file) := by
      intro file
      unfold textField
      rw [hfield]
      cases x <;> simp
    refine forall_congr' fun file => imp_congr (htext file) ?_
    rw [← Profile.load_reported_iff]
    cases Profile.load d (root.append (.ofString file)) with
    | ok p => exact iff_of_true (failsOnly_ok _) (failsOnly_ok _)
    | error e =>
      constructor
      · intro h
        exact failsOnly_error (h _ rfl : LoadError.Reported (.profile path e))
      · intro h
        exact failsOnly_error (h e rfl : e.Reported)

/-- Fields of which every fault is reported: texts name them, and a profile that they name is
legible. The profile is not read where a field means nothing. -/
structure Sound (d : Directory) (root : Path) (entries : Data.Entries) : Prop where
  named : Named entries
  profile : Known entries → ∀ file, Data.find? entries "profile" = some (.text file) →
    d.Legible (root.append (.ofString file)).text

theorem ofEntries_reported_iff :
    FailsOnly LoadError.Reported (ofEntries d path root entries) ↔ Sound d root entries := by
  constructor
  · intro h
    obtain ⟨hcheck, hrest⟩ := failsOnly_bind_iff.1 h
    refine ⟨checkFields_reported_iff.1 hcheck, fun hk => ?_⟩
    exact profileField_reported_iff.1 (failsOnly_bind_iff.1 (hrest () (checkFields_ok.2 hk))).1
  · intro h
    refine (checkFields_reported_iff.2 h.named).bind fun _ hk => ?_
    refine (profileField_reported_iff.2 (h.profile (checkFields_ok.1 hk))).bind fun profile _ => ?_
    refine (textsField_reported _ _ _).bind fun externalInputs _ => ?_
    refine (textField_reported _ _ _ _).bind fun base _ => ?_
    split
    · exact FailsOnly.bind (failsOnly_error trivial) fun _ hthrow => by cases hthrow
    · refine (textField_reported _ _ _ _).bind fun methodName _ => ?_
      refine (truthField_reported _ _ _).bind fun allowDeepNesting _ => ?_
      refine (truthField_reported _ _ _).bind fun strictBindings _ => ?_
      exact (truthField_reported _ _ _).bind fun dryRun _ => failsOnly_ok _

/-- A number as the name of a field, and a profile whose path has a zero character in it. -/
example : ofEntries {} "run.yaml" {} [(.int 1, .null)] = .error .unnamedField ∧
    ofEntries {} "run.yaml" {} [(.text "profile", .text "a\x00b")] =
      .error (.profile "run.yaml" (.fault .invalidPath)) := by
  decide +kernel

theorem ofText_reported_iff {text : String} :
    FailsOnly LoadError.Reported (ofText d path root text) ↔
      ∀ entries, Yaml.parse? text = some (.map entries) → Sound d root entries := by
  unfold ofText
  cases Yaml.parse? text with
  | none => exact iff_of_true (failsOnly_error trivial) (by simp)
  | some x =>
    cases x with
    | map entries =>
      rw [ofEntries_reported_iff]
      simp
    | null =>
      refine iff_of_true ?_ (by simp)
      exact ofEntries_reported_iff.2 ⟨by simp [Named], by simp [Data.find?]⟩
    | bool _ | int _ | float _ | text _ | date _ | list _ =>
      exact iff_of_true (failsOnly_error trivial) (by simp)

/-- **A configuration is refused with a report** where its file is legible, and its fields are
sound. -/
theorem load_reported_iff {path : Path} {root : Option Path} :
    FailsOnly LoadError.Reported (load d path root) ↔
      d.Legible path.text ∧ ∀ text entries, d.read path.text = .ok text →
        Yaml.parse? text = some (.map entries) → Sound d (root.getD path.parent) entries := by
  rw [← Store.Directory.read_refusal_iff]
  unfold load
  split
  · rename_i text hread
    rw [hread, ofText_reported_iff, and_iff_right (failsOnly_ok _)]
    constructor
    · intro h text' entries hsame
      obtain rfl := Except.ok.inj hsame
      exact h entries
    · intro h entries
      exact h text entries rfl
  · rename_i reason hread
    rw [hread]
    refine iff_of_true ?_ ⟨failsOnly_error trivial, by simp⟩
    split
    · exact failsOnly_error trivial
    · exact failsOnly_error trivial
  · rename_i fault hno hread
    rw [hread]
    refine iff_of_false (fun h => h _ rfl) (fun ⟨h, _⟩ => ?_)
    cases fault with
    | refused reason => exact hno reason rfl
    | notText => exact h _ rfl
    | invalidPath => exact h _ rfl

end Run.Config

/-! ## Targets -/

/-- A store that reads the files of a directory, unless the system refuses to. -/
structure Store.Reads {σ : Type} (store : Store σ) (dir : σ → Directory) : Prop where
  isFile : ∀ s path, store.isFile s path = (dir s).isFile path
  read : ∀ s path, store.read s path = (dir s).read path ∨
    ∃ reason, store.read s path = .error (.refused reason)

theorem Store.Backed.reads {σ : Type} {store : Store σ} {dir : σ → Directory}
    (hb : store.Backed dir) : store.Reads dir where
  isFile := hb.isFile
  read s path := .inl (hb.read s path)

namespace Plan

open Source (File)

variable {σ : Type} {store : Store σ} {dir : σ → Directory} {s : σ} {f : File} {files : List File}

/-- A file is not there, or it is read. -/
def Seen (store : Store σ) (s : σ) (path : String) : Prop :=
  store.isFile s path = .ok false ∨
    store.isFile s path = .ok true ∧ ∃ text, store.read s path = .ok text

/-- The first of the files that is there and cannot be read. -/
structure FirstUnread (store : Store σ) (s : σ) (files : List File) (f : File) : Prop where
  first : ∃ before after, files = before ++ f :: after ∧ ∀ g ∈ before, Seen store s g.path
  isFile : store.isFile s f.path = .ok true
  unread : ∀ text, store.read s f.path ≠ .ok text

/-- What is to be done about a file that is there is always told. -/
theorem exists_extendFile_builtin (f : File) (text : String) :
    ∃ p, extendFile {} f text = .ok p := by
  simp only [extendFile, bind_ok, pure_ok]
  refine ⟨_, _, filterM_ok.2 ⟨fun b _ => ?_, rfl⟩, _, filterM_ok.2 ⟨fun b _ => ?_, rfl⟩, rfl⟩
  · split
    · simp only [isConcrete, patternFor_builtin]
      exact ⟨_, rfl⟩
    · exact ⟨_, rfl⟩
  · obtain ⟨v, hv⟩ := exists_isDeclared b text
    split
    · exact ⟨_, rfl⟩
    · rw [hv]
      exact ⟨_, rfl⟩

/-- A plan is made for each file that is seen, and for no other one. -/
theorem planFile_ok_iff : (∃ p, planFile store s {} f = .ok p) ↔ Seen store s f.path := by
  unfold planFile Seen
  cases store.isFile s f.path with
  | error fault => simp
  | ok there =>
    cases there with
    | false => simp
    | true =>
      cases store.read s f.path with
      | ok text => simpa using exists_extendFile_builtin f text
      | error fault => cases fault <;> simp

/-- No plan is made of files one of which cannot be read. -/
theorem FirstUnread.ofFiles (h : FirstUnread store s files f) {e : Error}
    (he : planFile store s {} f = .error e) : ofFiles store s {} files = .error e := by
  obtain ⟨before, after, rfl, hbefore⟩ := h.first
  unfold Plan.ofFiles
  rw [mapM_error he fun g hg => planFile_ok_iff.2 (hbefore g hg)]
  rfl

end Plan

/-! ## All readers -/

namespace Run

/-- The same directory, where no file may be read. -/
def locked : Store Directory := { Directory.store with read := fun _ _ => .error Directory.refused }

/-- A file that is to be extended. -/
def target : Source.File where
  path := "app/a.py"
  role := .implementation
  blocks := []

end Run

end Lifeline
