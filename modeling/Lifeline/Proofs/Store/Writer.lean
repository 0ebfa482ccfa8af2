import Lifeline.Proofs.Store.Replace

/-!
# What a write holds on its way

A write as its calls go (`Writer.write`): which files are open, and which open file and which
temporary file the writer has to give back itself. An open file is the writer's own until a stream
takes it over, and the stream closes it whether writing succeeds or not; a temporary file is the
writer's own until it takes the place of the file that is written. Where a call fails, what is held
then is cleaned up.

Whichever call fails, and whatever it has written by then, cleaning up leads back to where the
write began (`Leads.run`). So a write that fails leaves no trace, and one that succeeds changes one
file (`write_leaves_no_trace`); the directory is the one that `Directory.replace` gives, whichever
free place the temporary file was at.
-/

set_option autoImplicit false

namespace Lifeline.Store

/-- The bytes and the permission bits of what is a file. -/
def Node.file? : Node → Option (ByteArray × Nat)
  | .file bytes mode => some (bytes, mode)
  | .directory _ => none

namespace Directory

variable {d : Directory} {p q t target : Place} {n n' : Node} {bytes : ByteArray} {mode : Nat}

/-- The bytes of a file and its permission bits, where a file is at a place. -/
def fileAt? (d : Directory) (p : Place) : Option (ByteArray × Nat) := (d.node? p).bind Node.file?

theorem fileMode?_eq : d.fileMode? p = (d.fileAt? p).map (·.2) := by
  unfold fileMode? fileAt?
  cases d.node? p with
  | none => rfl
  | some n => cases n <;> rfl

theorem fileAt?_put : (d.put p n).fileAt? q = if q = p then n.file? else d.fileAt? q := by
  unfold fileAt?
  rw [node?_put]
  split <;> rfl

theorem put_put : (d.put t n).put t n' = d.put t n' := by
  simp [put, erase, List.filter_filter]

theorem erase_free (ht : d.node? t = none) : d.erase t = d := by
  have hsame : d.nodes.filter (·.1 != t) = d.nodes := by
    rw [List.filter_eq_self]
    intro x hx
    have hne : t ≠ x.1 := by simpa using List.lookup_eq_none_iff.1 ht x hx
    simpa using hne.symm
  rw [erase, hsame]

/-- What was put at a free place can be taken away again. -/
theorem erase_put (ht : d.node? t = none) : (d.put t n).erase t = d := by
  have hput : (d.put t n).erase t = d.erase t := by simp [put, erase, List.filter_filter]
  rw [hput, erase_free ht]

theorem setBytes_put {b : ByteArray} :
    setBytes t bytes (d.put t (.file b mode)) = some (d.put t (.file bytes mode)) := by
  rw [setBytes, node?_put, if_pos rfl]
  exact congrArg some put_put

theorem setModeAt_put {m : Nat} :
    setModeAt t m (d.put t (.file bytes mode)) = some (d.put t (.file bytes m)) := by
  rw [setModeAt, node?_put, if_pos rfl]
  exact congrArg some put_put

/-- A file from a free place takes the place of what is no directory. -/
theorem renameTo_put (ht : d.node? t = none) (hflat : ∀ m, d.node? target ≠ some (.directory m)) :
    renameTo t target (d.put t (.file bytes mode)) = some (d.put target (.file bytes mode)) := by
  unfold renameTo
  rw [node?_put, node?_put, if_pos rfl]
  split
  · rename_i m hdir
    split at hdir
    · cases hdir
    · exact absurd hdir (hflat m)
  · rename_i n hn _
    rw [← Option.some.inj hn, erase_put ht]
  · rename_i hnone _
    cases hnone

theorem renameTo_directory (hdir : d.node? target = some (.directory mode))
    (ht : d.node? t = none) : renameTo t target (d.put t n) = none := by
  have hne : target ≠ t := by
    intro he
    cases hdir.symm.trans (he ▸ ht)
  unfold renameTo
  rw [node?_put, node?_put, if_pos rfl, if_neg hne, hdir]

/-- Directories on the way are no files. -/
theorem fileAt?_makeDirectories : ∀ {names : List String} {d : Directory} {p : Place},
    (d.makeDirectories p names).1.fileAt? q = d.fileAt? q
  | [], _, _ => rfl
  | name :: rest, d, p => by
    unfold makeDirectories
    split
    · rfl
    · split
      · exact fileAt?_makeDirectories
      · rfl
      · rename_i p' _ hnone
        rw [fileAt?_makeDirectories, fileAt?_put]
        split
        · rename_i he
          rw [he, fileAt?, hnone]
          rfl
        · rfl

/-- The way to a directory can be gone once its directories are made. -/
theorem steps_of_makeDirectories : ∀ {names : List String} {d d' : Directory} {p q : Place},
    d.makeDirectories p names = (d', .ok q) → (∃ m, d.node? p = some (.directory m)) →
      names.foldlM d'.step p = .ok q ∧ ∃ m, d'.node? q = some (.directory m)
  | [], d, d', p, q, h, hp => by
    obtain ⟨rfl, hq⟩ := Prod.mk.inj h
    obtain rfl := Except.ok.inj hq
    exact ⟨rfl, hp⟩
  | name :: rest, d, d', p, q, h, hp => by
    have hkeeps : Keeps d (d.makeDirectories p (name :: rest)).1 := makeDirectories_keeps
    rw [h] at hkeeps
    unfold makeDirectories at h
    split at h
    · cases h
    · rename_i p' hstep
      have hstep' : d'.step p name = .ok p' := step_kept hkeeps.directories hstep
      rw [List.foldlM_cons, hstep']
      split at h
      · rename_i m hdir
        exact steps_of_makeDirectories h ⟨m, hdir⟩
      · cases h
      · exact steps_of_makeDirectories h ⟨0o755, by rw [node?_put, if_pos rfl]⟩

/-- Where a file with a name is written, in the directory at a place. -/
def targetAt (p : Place) (name : String) : Place :=
  if name == ".." then p.dropLast else if name.isEmpty then p else p ++ [name]

/-- A name next to which a temporary file can be is not too long itself. -/
theorem step_targetAt {name : String} (hdir : d.node? p = some (.directory mode))
    (hfits : (temporaryName name 0).utf8ByteSize ≤ maxName) (hname : name.isEmpty = false) :
    d.step p name = .ok (targetAt p name) := by
  have hshort : ¬ name.utf8ByteSize > maxName := by
    simp only [temporaryName, String.utf8ByteSize_append] at hfits
    omega
  rw [step, hdir, targetAt, hname]
  dsimp only
  by_cases hup : (name == "..") = true
  · rw [if_pos hup, if_pos hup]
  · rw [if_neg hup, if_neg hup, if_neg hshort, if_neg Bool.false_ne_true]

/-! ## The calls -/

/-- A write on its way. -/
structure Writer where
  directory : Directory
  /-- The files that are open. -/
  opened : List Place := []
  /-- The open file that no stream has taken over. -/
  descriptor : Option Place := none
  /-- The temporary file that has not taken another place. -/
  temporary : Option Place := none

/-- A call, with what it does where it can and what it leaves where it fails. -/
structure Step where
  call : Call
  done : Writer → Option Writer
  failed : Writer → Writer := id

namespace Writer

/-- A write that holds nothing. -/
def idle (d : Directory) : Writer := { directory := d }

/-- A writer that has given back what it held. -/
def cleanUp (w : Writer) : Writer where
  directory := match w.temporary with
    | some t => w.directory.erase t
    | none => w.directory
  opened := match w.descriptor with
    | some t => w.opened.erase t
    | none => w.opened
  descriptor := none
  temporary := none

/-- A writer whose stream is closed early, when some bytes have been written. -/
def abandon (t : Place) (left : ByteArray) (w : Writer) : Writer :=
  { w with
    directory := (setBytes t left w.directory).getD w.directory
    opened := w.opened.erase t }

section

variable (fits : Bool) (t target : Place) (bytes left : ByteArray) (mode : Option Nat)

/-- A new file, if its name fits. It is open, and the writer's own. -/
def createTemporary : Step where
  call := .createTemporary
  done w :=
    if fits then
      some { directory := w.directory.put t (.file .empty 0o600), opened := t :: w.opened,
             descriptor := some t, temporary := some t }
    else none

/-- From here on a stream owns the open file. -/
def openTemporary : Step where
  call := .openTemporary
  done w := some { w with descriptor := none }

def writeTemporary : Step where
  call := .writeTemporary
  done w := (setBytes t bytes w.directory).map fun d => { w with directory := d }
  failed := abandon t left

def closeTemporary : Step where
  call := .closeTemporary
  done w := some { w with opened := w.opened.erase t }
  failed := abandon t left

def changeMode (mode : Nat) : Step where
  call := .setMode
  done w := (setModeAt t mode w.directory).map fun d => { w with directory := d }

def putInPlace : Step where
  call := .rename
  done w := (renameTo t target w.directory).map fun d =>
    { w with directory := d, temporary := none }

/-- The calls that fill a temporary file and put it in place of a file. -/
def fillSteps : List Step :=
  [openTemporary, writeTemporary t bytes left, closeTemporary t left] ++
  (match mode with
    | some mode => [changeMode t mode]
    | none => []) ++
  [putInPlace t target]

end

/-- Calls in order, up to the first one that fails. -/
def run (fails : Call → Bool) : List Step → Writer → Writer × Option Step
  | [], w => (w, none)
  | s :: rest, w =>
    if fails s.call then (w, some s)
    else
      match s.done w with
      | none => (w, some s)
      | some w => run fails rest w

/-- A writer after its calls, and the call that failed: what is held then is cleaned up. -/
def settle : Writer × Option Step → Writer × Option Call
  | (w, none) => (w, none)
  | (w, some s) => ((s.failed w).cleanUp, some s.call)

/-- How places for temporary files are chosen: what is chosen is free. -/
structure Choice where
  place : Directory → Place → String → Place
  free : ∀ (d : Directory) (p : Place) (name : String), d.node? (place d p name) = none

/-- The first numbered place that is free. -/
def Choice.numbered : Choice where
  place := temporaryPlace
  free := node?_temporaryPlace

/-- A write of a file with a name in the directory at a place. A call that writes and fails leaves
some bytes in the temporary file. -/
def writeIn (fails : Call → Bool) (choice : Choice) (left : ByteArray) (d : Directory) (p : Place)
    (name : String) (bytes : ByteArray) : Writer × Option Call :=
  let t := choice.place d p name
  let target := targetAt p name
  let fits := !(temporaryName name 0).utf8ByteSize > maxName
  settle (run fails
    (createTemporary fits t :: fillSteps t target bytes left (d.fileMode? target)) (idle d))

/-- A write of a file, and the call that failed. -/
def write (fails : Call → Bool) (choice : Choice) (left : ByteArray) (d : Directory) (path : Path)
    (bytes : ByteArray) : Writer × Option Call :=
  if path.isAbsolute || fails .makeParents then (idle d, some .makeParents)
  else
    match d.makeDirectories [] path.parent.names with
    | (d, .error _) => (idle d, some .makeParents)
    | (d, .ok p) => writeIn fails choice left d p path.name bytes

/-! ## Where a call fails -/

variable {fails : Call → Bool} {d : Directory} {t target : Place} {bytes left : ByteArray}
  {mode : Option Nat} {steps : List Step} {w : Writer} {o : Option Writer}

/-- Wherever this call fails, the directory without the temporary file is what it was, and cleaning
up leads back to it. -/
structure Safe (d : Directory) (t : Place) (s : Step) (w : Writer) : Prop where
  erased : w.directory.erase t = d
  cleaned : (s.failed w).cleanUp = idle d

/-- Calls that lead from one writer to another, or to a call that cannot be done, and all of them
are safe. -/
inductive Leads (d : Directory) (t : Place) : List Step → Writer → Option Writer → Prop
  | nil {w : Writer} : Leads d t [] w (some w)
  | stuck {s : Step} {rest : List Step} {w : Writer} :
      s.done w = none → Safe d t s w → Leads d t (s :: rest) w none
  | next {s : Step} {rest : List Step} {w w' : Writer} {o : Option Writer} :
      s.done w = some w' → Safe d t s w → Leads d t rest w' o → Leads d t (s :: rest) w o

/-- **A run of safe calls** gets to its end where no call fails; where one does, it is safe. -/
theorem Leads.run (h : Leads d t steps w o) (fails : Call → Bool) :
    (∃ w', o = some w' ∧ (∀ s ∈ steps, fails s.call = false) ∧
      Writer.run fails steps w = (w', none)) ∨
    (¬ (o.isSome ∧ ∀ s ∈ steps, fails s.call = false) ∧
      ∃ w' s, Writer.run fails steps w = (w', some s) ∧ Safe d t s w') := by
  induction h with
  | nil => exact .inl ⟨_, rfl, by simp, rfl⟩
  | @stuck s rest w hdone hsafe =>
    refine .inr ⟨by simp, w, s, ?_, hsafe⟩
    rw [Writer.run, hdone]
    split <;> rfl
  | @next s rest w w' o hdone hsafe _ ih =>
    rw [Writer.run, hdone]
    by_cases hfails : fails s.call = true
    · refine .inr ⟨fun h => ?_, w, s, if_pos hfails, hsafe⟩
      cases hfails.symm.trans (h.2 s (.head _))
    · rw [if_neg hfails]
      rw [Bool.not_eq_true] at hfails
      rcases ih with ⟨w₁, ho, hrest, hrun⟩ | ⟨hnot, w₁, s₁, hrun, hsafe₁⟩
      · exact .inl ⟨w₁, ho, List.forall_mem_cons.2 ⟨hfails, hrest⟩, hrun⟩
      · refine .inr ⟨fun h => hnot ⟨h.1, fun s hs => h.2 s (.tail _ hs)⟩, w₁, s₁, hrun, hsafe₁⟩

/-! ## The calls of a write are safe -/

variable {n : Node} {m : Nat} {p : Place} {name : String} {choice : Choice}

/-- Before a stream takes over, both the open file and the temporary one are given back. -/
theorem cleanUp_held (ht : d.node? t = none) :
    cleanUp ⟨d.put t n, [t], some t, some t⟩ = idle d := by
  simp [cleanUp, idle, erase_put ht]

/-- Once the stream is closed, only the temporary file is. -/
theorem cleanUp_closed (ht : d.node? t = none) :
    cleanUp ⟨d.put t n, [], none, some t⟩ = idle d := by
  simp [cleanUp, idle, erase_put ht]

theorem abandon_put {b : ByteArray} : abandon t left ⟨d.put t (.file b m), [t], none, some t⟩ =
    ⟨d.put t (.file left m), [], none, some t⟩ := by
  simp [abandon, setBytes_put]

theorem writeTemporary_done {b : ByteArray} :
    (writeTemporary t bytes left).done ⟨d.put t (.file b m), [t], none, some t⟩ =
      some ⟨d.put t (.file bytes m), [t], none, some t⟩ := by
  simp [writeTemporary, setBytes_put]

theorem closeTemporary_done :
    (closeTemporary t left).done ⟨d, [t], none, some t⟩ = some ⟨d, [], none, some t⟩ := by
  simp [closeTemporary]

theorem changeMode_done {m' : Nat} :
    (changeMode t m').done ⟨d.put t (.file bytes m), [], none, some t⟩ =
      some ⟨d.put t (.file bytes m'), [], none, some t⟩ := by
  simp [changeMode, setModeAt_put]

/-- The calls that fill a temporary file lead to where it is put in place, if it can be. -/
theorem leads_fillSteps (ht : d.node? t = none) :
    Leads d t (fillSteps t target bytes left mode)
      ⟨d.put t (.file .empty 0o600), [t], some t, some t⟩
      ((renameTo t target (d.put t (.file bytes (mode.getD 0o600)))).map idle) := by
  have herase : ∀ n, (d.put t n).erase t = d := fun n => erase_put ht
  have habandon : ∀ b m, (abandon t left ⟨d.put t (.file b m), [t], none, some t⟩).cleanUp =
      idle d := fun b m => (congrArg cleanUp abandon_put).trans (cleanUp_closed ht)
  have hrename : ∀ m, Leads d t [putInPlace t target] ⟨d.put t (.file bytes m), [], none, some t⟩
      ((renameTo t target (d.put t (.file bytes m))).map idle) := by
    intro m
    have hdone : (putInPlace t target).done ⟨d.put t (.file bytes m), [], none, some t⟩ =
        (renameTo t target (d.put t (.file bytes m))).map idle := rfl
    cases hr : renameTo t target (d.put t (.file bytes m)) with
    | none => exact .stuck (hdone.trans (by rw [hr]; rfl)) ⟨herase _, cleanUp_closed ht⟩
    | some d' => exact .next (hdone.trans (by rw [hr]; rfl)) ⟨herase _, cleanUp_closed ht⟩ .nil
  refine .next rfl ⟨herase _, cleanUp_held ht⟩ ?_
  refine .next writeTemporary_done ⟨herase _, habandon _ _⟩ ?_
  refine .next closeTemporary_done ⟨herase _, habandon _ _⟩ ?_
  cases mode with
  | none => exact hrename 0o600
  | some m => exact .next changeMode_done ⟨herase _, cleanUp_closed ht⟩ (hrename m)

/-! ## The outcome -/

/-- All calls of a write in a directory can be done, and none of them fails. -/
structure Goes (fails : Call → Bool) (d : Directory) (p : Place) (name : String) : Prop where
  fits : (temporaryName name 0).utf8ByteSize ≤ maxName
  flat : ∀ m, d.node? (targetAt p name) ≠ some (.directory m)
  calls : ∀ c, c ≠ .makeParents → (c = .setMode → d.fileMode? (targetAt p name) ≠ none) →
    fails c = false

/-- A directory after a write has succeeded in it. -/
def after (d : Directory) (p : Place) (name : String) (bytes : ByteArray) : Directory :=
  d.put (targetAt p name) (.file bytes ((d.fileMode? (targetAt p name)).getD 0o600))

theorem calls_iff {fits : Bool} :
    (∀ s ∈ createTemporary fits t :: fillSteps t target bytes left mode, fails s.call = false) ↔
      ∀ c, c ≠ .makeParents → (c = .setMode → mode ≠ none) → fails c = false := by
  have hsteps : ∀ c, (∃ s ∈ createTemporary fits t :: fillSteps t target bytes left mode,
      s.call = c) ↔ c ≠ .makeParents ∧ (c = .setMode → mode ≠ none) := by
    intro c
    cases mode <;> cases c <;>
      simp [fillSteps, createTemporary, openTemporary, writeTemporary, closeTemporary, changeMode,
        putInPlace]
  constructor
  · intro h c hc hmode
    obtain ⟨s, hs, rfl⟩ := (hsteps c).2 ⟨hc, hmode⟩
    exact h s hs
  · intro h s hs
    obtain ⟨hc, hmode⟩ := (hsteps s.call).1 ⟨s, hs, rfl⟩
    exact h s.call hc hmode

/-- **A write in a directory** goes, or leaves the directory as it was. Nothing is open afterwards,
wherever the temporary file was. -/
theorem writeIn_cases (fails : Call → Bool) (choice : Choice) (left : ByteArray) (d : Directory)
    (p : Place) (name : String) (bytes : ByteArray) :
    (Goes fails d p name ∧
      writeIn fails choice left d p name bytes = (idle (after d p name bytes), none)) ∨
    (¬ Goes fails d p name ∧
      ∃ c, writeIn fails choice left d p name bytes = (idle d, some c)) := by
  have ht := choice.free d p name
  unfold writeIn
  dsimp only
  generalize choice.place d p name = t at ht
  generalize hfits : (!decide ((temporaryName name 0).utf8ByteSize > maxName)) = fits
  have hsafe : Safe d t (createTemporary fits t) (idle d) := ⟨erase_free ht, rfl⟩
  -- where the calls lead does not depend on the place of the temporary file
  obtain ⟨o, hleads, hafter, hsome⟩ : ∃ o, Leads d t (createTemporary fits t ::
      fillSteps t (targetAt p name) bytes left (d.fileMode? (targetAt p name))) (idle d) o ∧
      (∀ w, o = some w → w = idle (after d p name bytes)) ∧
      (o.isSome ↔ fits = true ∧ ∀ m, d.node? (targetAt p name) ≠ some (.directory m)) := by
    cases fits with
    | false => exact ⟨none, .stuck rfl hsafe, by simp, by simp⟩
    | true =>
      refine ⟨_, .next rfl hsafe (leads_fillSteps ht), ?_⟩
      by_cases hflat : ∀ m, d.node? (targetAt p name) ≠ some (.directory m)
      · rw [renameTo_put ht hflat]
        exact ⟨fun w hw => (Option.some.inj hw).symm, by simp [hflat]⟩
      · obtain ⟨m, hm⟩ := not_forall_not.1 hflat
        rw [renameTo_directory hm ht]
        exact ⟨fun w hw => (by cases hw), by simp [hm]⟩
  have hname : fits = true ↔ (temporaryName name 0).utf8ByteSize ≤ maxName := by
    rw [← hfits]
    simp
  rcases hleads.run fails with ⟨w, ho, hcalls, hrun⟩ | ⟨hnot, w, s, hrun, hs⟩
  · obtain ⟨hfit, hflat⟩ := hsome.1 (by rw [ho]; rfl)
    obtain rfl := hafter w ho
    refine .inl ⟨⟨hname.1 hfit, hflat, calls_iff.1 hcalls⟩, ?_⟩
    rw [hrun]
    rfl
  · refine .inr ⟨fun hgoes => ?_, s.call, ?_⟩
    · exact hnot ⟨hsome.2 ⟨hname.2 hgoes.fits, hgoes.flat⟩, calls_iff.2 hgoes.calls⟩
    · rw [hrun]
      exact congrArg (·, some s.call) hs.cleaned

/-! ## The same directory -/

/-- A step does to the directory what a call does. -/
def Follows (s : Step) (c : Call × (Directory → Option Directory)) : Prop :=
  s.call = c.1 ∧ ∀ w : Writer, (s.done w).map (·.directory) = c.2 w.directory

theorem follows_fillCalls (t target : Place) (bytes left : ByteArray) (mode : Option Nat) :
    List.Forall₂ Follows (fillSteps t target bytes left mode) (fillCalls t target bytes mode) := by
  have hmap : ∀ (o : Option Directory) (f : Directory → Writer), (∀ d, (f d).directory = d) →
      (o.map f).map (·.directory) = o := by
    intro o f hf
    cases o with
    | none => rfl
    | some d => exact congrArg some (hf d)
  have hrename : Follows (putInPlace t target) (.rename, renameTo t target) :=
    ⟨rfl, fun w => hmap _ _ fun _ => rfl⟩
  refine .cons ⟨rfl, fun w => rfl⟩ (.cons ⟨rfl, fun w => hmap _ _ fun _ => rfl⟩ ?_)
  refine .cons ⟨rfl, fun w => rfl⟩ ?_
  cases mode with
  | none => exact .cons hrename .nil
  | some m => exact .cons ⟨rfl, fun w => hmap _ _ fun _ => rfl⟩ (.cons hrename .nil)

theorem runCalls_eq (fails : Call → Bool) {calls : List (Call × (Directory → Option Directory))}
    (h : List.Forall₂ Follows steps calls) (w : Writer) :
    runCalls fails w.directory calls = ((run fails steps w).1.directory,
      if (run fails steps w).2.isNone then .ok () else .error refused) := by
  induction h generalizing w with
  | nil => rfl
  | @cons s c rest calls hsc _ ih =>
    obtain ⟨call, f⟩ := c
    obtain ⟨rfl, hdone⟩ := hsc
    have hw : (s.done w).map (·.directory) = f w.directory := hdone w
    rw [runCalls_cons, run, ← hw]
    by_cases hfails : fails s.call = true
    · rw [if_pos hfails, if_pos hfails]
      rfl
    · rw [if_neg hfails, if_neg hfails]
      cases s.done w with
      | none => rfl
      | some w' => exact ih w'

/-- The directory and the answer that a write leaves. -/
def answer : Writer × Option Call → Directory × Except Fault Unit
  | (w, none) => (w.directory, .ok ())
  | (w, some _) => (w.directory, .error refused)

/-- A temporary file that is filled in one go, and taken away where a call fails. -/
theorem fill_eq (ht : d.node? t = none) (long : Bool) :
    (if fails .createTemporary || long then (d, .error refused)
      else
        match runCalls fails (d.put t (.file .empty 0o600)) (fillCalls t target bytes mode) with
        | (d, .ok _) => (d, .ok ())
        | (d, .error e) => (d.erase t, .error e)) =
      answer (settle (run fails
        (createTemporary (!long) t :: fillSteps t target bytes left mode) (idle d))) := by
  by_cases hfails : fails .createTemporary = true
  · have hrun : run fails (createTemporary (!long) t :: fillSteps t target bytes left mode)
        (idle d) = (idle d, some (createTemporary (!long) t)) := if_pos hfails
    rw [hrun, hfails]
    rfl
  · rw [Bool.eq_false_iff.2 hfails, Bool.false_or]
    cases long with
    | true =>
      have hrun : run fails (createTemporary false t :: fillSteps t target bytes left mode)
          (idle d) = (idle d, some (createTemporary false t)) := if_neg hfails
      rw [Bool.not_true, hrun]
      rfl
    | false =>
      have hrun : run fails (createTemporary true t :: fillSteps t target bytes left mode)
          (idle d) = run fails (fillSteps t target bytes left mode)
            ⟨d.put t (.file .empty 0o600), [t], some t, some t⟩ := if_neg hfails
      have hcalls := runCalls_eq fails (follows_fillCalls t target bytes left mode)
        ⟨d.put t (.file .empty 0o600), [t], some t, some t⟩
      have hleads : Leads d t (fillSteps t target bytes left mode) _ _ := leads_fillSteps ht
      rw [if_neg Bool.false_ne_true, Bool.not_false, hrun, hcalls]
      rcases hleads.run fails with ⟨w, -, -, hw⟩ | ⟨-, w, s, hw, hsafe⟩
      · rw [hw]
        rfl
      · rw [hw, settle, hsafe.cleaned]
        exact congrArg (·, _) hsafe.erased

/-- What is made of the directory in one go is what the calls make of it. -/
theorem replaceIn_eq (fails : Call → Bool) (left : ByteArray) (d : Directory) (p : Place)
    (name : String) (bytes : ByteArray) : d.replaceIn fails p name bytes =
      answer (writeIn fails .numbered left d p name bytes) :=
  fill_eq (node?_temporaryPlace d p name) _

/-- **The write that runs** is this one, wherever its temporary file is. -/
theorem replace_eq (fails : Call → Bool) (choice : Choice) (left : ByteArray) (d : Directory)
    (path : Path) (bytes : ByteArray) :
    d.replace fails path bytes = answer (write fails choice left d path bytes) := by
  unfold replace write
  split
  · rfl
  · rcases hmake : d.makeDirectories [] path.parent.names with ⟨d₁, e | p⟩
    · rw [makeDirectories_error hmake]
      rfl
    · show d₁.replaceIn fails p path.name bytes =
        answer (writeIn fails choice left d₁ p path.name bytes)
      rw [replaceIn_eq fails left]
      rcases writeIn_cases fails choice left d₁ p path.name bytes with
        ⟨hgoes, hwrite⟩ | ⟨hnot, c, hwrite⟩
      · rcases writeIn_cases fails .numbered left d₁ p path.name bytes with
          ⟨-, hnumbered⟩ | ⟨hnot, -⟩
        · rw [hwrite, hnumbered]
        · exact absurd hgoes hnot
      · rcases writeIn_cases fails .numbered left d₁ p path.name bytes with
          ⟨hgoes, -⟩ | ⟨-, c', hnumbered⟩
        · exact absurd hgoes hnot
        · rw [hwrite, hnumbered]
          rfl

/-! ## No trace -/

/-- The directories on the way of a path can be made, and the write goes in the last of them. -/
structure Lands (fails : Call → Bool) (d : Directory) (path : Path) (d₁ : Directory) (p : Place) :
    Prop where
  relative : path.isAbsolute = false
  parents : fails .makeParents = false
  made : d.makeDirectories [] path.parent.names = (d₁, .ok p)
  goes : Goes fails d₁ p path.name

/-- **A write** lands, or it leaves every file as it was. -/
theorem write_cases (fails : Call → Bool) (choice : Choice) (left : ByteArray) (d : Directory)
    (path : Path) (bytes : ByteArray) :
    (∃ d₁ p, Lands fails d path d₁ p ∧
      write fails choice left d path bytes = (idle (after d₁ p path.name bytes), none)) ∨
    ((∀ d₁ p, ¬ Lands fails d path d₁ p) ∧ ∃ d₁ c, (∀ q, d₁.fileAt? q = d.fileAt? q) ∧
      write fails choice left d path bytes = (idle d₁, some c)) := by
  have hfiles : ∀ q, (d.makeDirectories [] path.parent.names).1.fileAt? q = d.fileAt? q :=
    fun q => fileAt?_makeDirectories
  unfold write
  by_cases hroot : (path.isAbsolute || fails .makeParents) = true
  · rw [if_pos hroot]
    refine .inr ⟨fun d₁ p h => ?_, d, _, fun _ => rfl, rfl⟩
    rw [h.relative, h.parents] at hroot
    cases hroot
  · rw [if_neg hroot]
    rw [Bool.or_eq_true, not_or, Bool.not_eq_true, Bool.not_eq_true] at hroot
    rcases hmake : d.makeDirectories [] path.parent.names with ⟨d₁, e | p⟩
    · rw [hmake] at hfiles
      refine .inr ⟨fun d₂ q h => ?_, d₁, _, hfiles, rfl⟩
      cases hmake.symm.trans h.made
    · rw [hmake] at hfiles
      rcases writeIn_cases fails choice left d₁ p path.name bytes with
        ⟨hgoes, hwrite⟩ | ⟨hnot, c, hwrite⟩
      · exact .inl ⟨d₁, p, ⟨hroot.1, hroot.2, hmake, hgoes⟩, hwrite⟩
      · refine .inr ⟨fun d₂ q h => ?_, d₁, c, hfiles, hwrite⟩
        cases hmake.symm.trans h.made
        exact hnot h.goes

/-- A path leads to the file that was written, if the working directory is there. -/
theorem Lands.locate {d₁ : Directory} {path : Path} (h : Lands fails d path d₁ p)
    (hwork : ∃ m, d.node? [] = some (.directory m)) :
    (after d₁ p path.name bytes).locate path = .ok (targetAt p path.name) := by
  refine locate_ok.2 ⟨h.relative, ?_⟩
  obtain ⟨hsteps, m, hdir⟩ := steps_of_makeDirectories h.made hwork
  have hkeeps : KeepsDirectories d₁ (after d₁ p path.name bytes) := by
    intro q m hq
    rw [after, node?_put, if_neg]
    · exact hq
    · intro he
      exact h.goes.flat m (he ▸ hq)
  have hsteps := steps_kept hkeeps hsteps
  rcases List.eq_nil_or_concat path.names with hnames | ⟨before, last, hnames⟩
  · have hparent : path.parent.names = [] := by rw [Path.parent, hnames]; rfl
    have hname : path.name = "" := by rw [Path.name, hnames]; rfl
    rw [hparent] at hsteps
    rw [hnames, hname]
    exact hsteps
  · have hparent : path.parent.names = before := by rw [Path.parent, hnames]; simp
    have hname : path.name = last := by rw [Path.name, hnames]; simp
    have hlast : path.name.isEmpty = false := by
      by_contra hempty
      rw [Bool.not_eq_false] at hempty
      refine h.goes.flat m ?_
      rw [targetAt, hempty, String.isEmpty_iff.1 hempty]
      exact hdir
    rw [hparent] at hsteps
    rw [hnames, List.concat_eq_append, List.foldlM_append, hsteps, ← hname]
    show [path.name].foldlM (after d₁ p path.name bytes).step p = _
    rw [List.foldlM_cons, step_targetAt (hkeeps p m hdir) h.goes.fits hlast]
    rfl

/-- **A write that fails leaves no trace**, whichever call fails and whatever has been written by
then: every file has its bytes and its permission bits, and there is no other file. After one that
succeeds, the file that the path leads to has the new bytes and the permission bits that it had, and
everything else is as it was; no call that was made has failed. In either case nothing is open or
left to be given back, and the directory and the answer are those of the write that runs. -/
theorem write_leaves_no_trace (fails : Call → Bool) (choice : Choice) (left : ByteArray)
    (d : Directory) (path : Path) (bytes : ByteArray) :
    ∃ d' failed, write fails choice left d path bytes = (idle d', failed) ∧
      d.replace fails path bytes = (d', if failed.isSome then .error refused else .ok ()) ∧
      (failed ≠ none → ∀ q, d'.fileAt? q = d.fileAt? q) ∧
      (failed = none ↔ ∃ d₁ p, Lands fails d path d₁ p) ∧
      (failed = none → ∃ target,
        ((∃ m, d.node? [] = some (.directory m)) → d'.locate path = .ok target) ∧
        (∀ c, (c = .setMode → d.fileAt? target ≠ none) → fails c = false) ∧
        ∀ q, d'.fileAt? q =
          if q = target then some (bytes, ((d.fileAt? target).map (·.2)).getD 0o600)
          else d.fileAt? q) := by
  have hanswer := replace_eq fails choice left d path bytes
  rcases write_cases fails choice left d path bytes with
    ⟨d₁, p, hlands, hwrite⟩ | ⟨hnot, d₁, c, hfiles, hwrite⟩
  · rw [hwrite] at hanswer
    refine ⟨_, none, hwrite, hanswer, by simp, iff_of_true rfl ⟨d₁, p, hlands⟩, fun _ => ?_⟩
    have hfiles : ∀ q, d₁.fileAt? q = d.fileAt? q := by
      intro q
      have hmade : (d.makeDirectories [] path.parent.names).1.fileAt? q = d.fileAt? q :=
        fileAt?_makeDirectories
      rwa [hlands.made] at hmade
    have hmode : d₁.fileMode? (targetAt p path.name) =
        (d.fileAt? (targetAt p path.name)).map (·.2) := by
      rw [fileMode?_eq, hfiles]
    refine ⟨targetAt p path.name, hlands.locate, fun c hc => ?_, fun q => ?_⟩
    · by_cases hparents : c = .makeParents
      · rw [hparents]
        exact hlands.parents
      · refine hlands.goes.calls c hparents fun hset => ?_
        rw [hmode, ne_eq, Option.map_eq_none_iff]
        exact hc hset
    · rw [after, fileAt?_put, hfiles, hmode]
      rfl
  · rw [hwrite] at hanswer
    refine ⟨d₁, some c, hwrite, hanswer, fun _ => hfiles, ?_, fun h => by cases h⟩
    exact iff_of_false (by simp) fun ⟨d₂, p, h⟩ => hnot d₂ p h

end Writer

end Directory

end Lifeline.Store
