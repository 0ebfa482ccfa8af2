import Lifeline.Proofs.Lists
import Lifeline.Proofs.Outcome
import Lifeline.Store.Directory

/-!
# Files that are replaced

What a write does to a directory, whichever of its calls fail. A write that fails leaves everything
that was there (`replace_error`), since its temporary file took no place that was in use
(`node?_temporaryPlace`) and is removed. A write that succeeds puts the new bytes in place of the
file and leaves everything else (`Replaced`).

A path is direct where no name on its way leads up again. Files are found under direct paths as long
as the directories on the way stay (`find_kept`).
-/

set_option autoImplicit false

namespace Lifeline.Store

/-- The names of a path lead down, one by one. -/
def Path.Direct (p : Path) : Prop := "" ∉ p.names ∧ ".." ∉ p.names

instance (p : Path) : Decidable p.Direct := inferInstanceAs (Decidable (_ ∧ _))

/-- Paths from the working directory are told apart by their names. -/
theorem Path.eq_of_names {p q : Path} (hp : p.isAbsolute = false) (hq : q.isAbsolute = false)
    (h : p.names = q.names) : p = q := by
  obtain ⟨root, names⟩ := p
  obtain ⟨root', names'⟩ := q
  obtain rfl : root = "" := by simpa [Path.isAbsolute] using hp
  obtain rfl : root' = "" := by simpa [Path.isAbsolute] using hq
  obtain rfl : names = names' := h
  rfl

namespace Directory

variable {d d' : Directory} {p q t : Place} {n : Node}

theorem node?_erase (d : Directory) (p q : Place) :
    (d.erase p).node? q = if q = p then none else d.node? q := by
  unfold node? erase
  split
  · rename_i h
    subst h
    exact lookup_filter_self d.nodes q
  · rename_i h
    exact lookup_filter_ne h

theorem node?_put (d : Directory) (p : Place) (n : Node) (q : Place) :
    (d.put p n).node? q = if q = p then some n else d.node? q := by
  have herase := node?_erase d p q
  unfold node? at *
  rw [put, List.lookup_cons]
  by_cases h : q = p
  · simp [h]
  · rw [beq_eq_false_iff_ne.2 h, herase, if_neg h, if_neg h]

/-! ## Finding -/

/-- Every directory is one afterwards. -/
def KeepsDirectories (d d' : Directory) : Prop :=
  ∀ p mode, d.node? p = some (.directory mode) → d'.node? p = some (.directory mode)

/-- Everything that is there is there afterwards. -/
def Keeps (d d' : Directory) : Prop := ∀ p n, d.node? p = some n → d'.node? p = some n

theorem Keeps.refl (d : Directory) : Keeps d d := fun _ _ h => h

theorem Keeps.trans {d₁ d₂ d₃ : Directory} (h : Keeps d₁ d₂) (h' : Keeps d₂ d₃) : Keeps d₁ d₃ :=
  fun p n hp => h' p n (h p n hp)

theorem Keeps.directories (h : Keeps d d') : KeepsDirectories d d' := fun p _ => h p _

theorem keeps_put (h : d.node? p = none) : Keeps d (d.put p n) := by
  intro q m hq
  rw [node?_put, if_neg]
  · exact hq
  · rintro rfl
    cases h.symm.trans hq

/-- A step that can be done goes from a directory. -/
theorem step_ok {name : String} (h : d.step p name = .ok q) :
    (∃ mode, d.node? p = some (.directory mode)) ∧ (name ≠ ".." → q = p ++ [name]) := by
  unfold step at h
  split at h
  · cases h
  · cases h
  · rename_i mode hp
    refine ⟨⟨mode, hp⟩, fun hne => ?_⟩
    rw [if_neg (by simpa using hne)] at h
    split at h
    · cases h
    · exact (Except.ok.inj h).symm

theorem step_kept (hd : KeepsDirectories d d') {name : String} (h : d.step p name = .ok q) :
    d'.step p name = .ok q := by
  obtain ⟨⟨mode, hp⟩, -⟩ := step_ok h
  have hp' := hd p mode hp
  unfold step at h ⊢
  rw [hp] at h
  rw [hp']
  exact h

theorem steps_kept (hd : KeepsDirectories d d') {names : List String} :
    ∀ {p : Place}, names.foldlM d.step p = .ok q → names.foldlM d'.step p = .ok q := by
  induction names with
  | nil => exact fun h => h
  | cons name names ih =>
    intro p h
    rw [List.foldlM_cons, bind_ok] at h ⊢
    obtain ⟨p', hp', h⟩ := h
    exact ⟨p', step_kept hd hp', ih h⟩

theorem steps_direct {names : List String} (hn : ".." ∉ names) :
    ∀ {p : Place}, names.foldlM d.step p = .ok q → q = p ++ names := by
  induction names with
  | nil =>
    intro p h
    rw [List.append_nil]
    exact (Except.ok.inj h).symm
  | cons name names ih =>
    intro p h
    rw [List.foldlM_cons, bind_ok] at h
    obtain ⟨p', hp', h⟩ := h
    obtain ⟨hname, hnames⟩ := List.ne_and_not_mem_of_not_mem_cons hn
    obtain rfl := (step_ok hp').2 hname.symm
    rw [ih hnames h, List.append_assoc, List.singleton_append]

theorem locate_ok {path : Path} : d.locate path = .ok q ↔
    path.isAbsolute = false ∧ path.names.foldlM d.step [] = .ok q := by
  unfold locate walk
  cases path.isAbsolute <;> simp

theorem find_ok {path : Path} :
    d.find path = .ok n ↔ ∃ q, d.locate path = .ok q ∧ d.node? q = some n := by
  simp only [find, bind_ok]
  refine exists_congr fun q => and_congr_right fun _ => ?_
  cases d.node? q <;> simp [pure, Except.pure, throw, throwThe, MonadExceptOf.throw]

/-- What is found under a direct path stands at its names. -/
theorem node?_of_find {path : Path} (hp : path.Direct) (h : d.find path = .ok n) :
    path.isAbsolute = false ∧ d.node? path.names = some n := by
  obtain ⟨q, hq, hn⟩ := find_ok.1 h
  obtain ⟨hroot, hsteps⟩ := locate_ok.1 hq
  obtain rfl : q = path.names := by simpa using steps_direct hp.2 hsteps
  exact ⟨hroot, hn⟩

/-- **A path leads where it led**, as long as the directories stay. -/
theorem find_kept {path : Path} (hp : path.Direct) (hd : KeepsDirectories d d')
    (h : d.find path = .ok n) {n' : Node} (hn : d'.node? path.names = some n') :
    d'.find path = .ok n' := by
  obtain ⟨q, hq, -⟩ := find_ok.1 h
  obtain ⟨hroot, hsteps⟩ := locate_ok.1 hq
  obtain rfl : q = path.names := by simpa using steps_direct hp.2 hsteps
  exact find_ok.2 ⟨_, locate_ok.2 ⟨hroot, steps_kept hd hsteps⟩, hn⟩

/-! ## Directories on the way -/

theorem makeDirectories_keeps : ∀ {names : List String} {d : Directory} {p : Place},
    Keeps d (d.makeDirectories p names).1
  | [], d, _ => Keeps.refl d
  | name :: rest, d, p => by
    unfold makeDirectories
    split
    · exact Keeps.refl d
    · split
      · exact makeDirectories_keeps
      · exact Keeps.refl d
      · rename_i hnone
        exact (keeps_put hnone).trans makeDirectories_keeps

theorem makeDirectories_error : ∀ {names : List String} {d d' : Directory} {p : Place} {e : Fault},
    d.makeDirectories p names = (d', .error e) → e = refused
  | [], _, _, _, _, h => by cases h
  | name :: rest, d, d', p, e, h => by
    unfold makeDirectories at h
    split at h
    · cases h
      rfl
    · split at h
      · exact makeDirectories_error h
      · cases h
        rfl
      · exact makeDirectories_error h

theorem makeDirectories_direct : ∀ {names : List String} {d d' : Directory} {p q : Place},
    d.makeDirectories p names = (d', .ok q) → ".." ∉ names → q = p ++ names
  | [], _, _, p, _, h, _ => by
    cases h
    exact (List.append_nil p).symm
  | name :: rest, d, d', p, q, h, hn => by
    obtain ⟨hname, hrest⟩ := List.ne_and_not_mem_of_not_mem_cons hn
    unfold makeDirectories at h
    split at h
    · cases h
    · rename_i p' hstep
      obtain rfl := (step_ok hstep).2 hname.symm
      have happend : p ++ name :: rest = p ++ [name] ++ rest := by simp
      rw [happend]
      split at h
      · exact makeDirectories_direct h hrest
      · cases h
      · exact makeDirectories_direct h hrest

/-! ## Temporary files -/

theorem temporaryName_injective (name : String) : Function.Injective (temporaryName name) := by
  intro m n h
  have hlists := congrArg String.toList h
  simp only [temporaryName, String.toList_append, String.toList_ofList] at hlists
  have hdigits := List.append_cancel_left (List.append_cancel_right hlists)
  have hvalue : ∀ k, Nat.ofDigitChars 10
      (List.replicate (8 - (Nat.toDigits 10 k).length) '0' ++ Nat.toDigits 10 k) 0 = k := by
    intro k
    have hzeros : ∀ i, Nat.ofDigitChars 10 (List.replicate i '0') 0 = 0 := by
      intro i
      induction i with
      | zero => rfl
      | succ i ih => simp [List.replicate_succ, Nat.ofDigitChars_cons, ih]
    rw [Nat.ofDigitChars_append, hzeros, Nat.ofDigitChars_ten_toDigits]
  rw [← hvalue m, hdigits, hvalue n]

/-- A temporary file takes no place that is in use. -/
theorem node?_temporaryPlace (d : Directory) (p : Place) (name : String) :
    d.node? (d.temporaryPlace p name) = none := by
  unfold temporaryPlace
  dsimp only
  generalize hplaces : (List.range (d.nodes.length + 1)).map
    (fun n => p ++ [temporaryName name n]) = places
  cases hfind : places.find? fun q => (d.node? q).isNone with
  | some q => simpa using List.find?_some hfind
  | none =>
    -- more different places than there are nodes cannot all be in use
    have hused : places ⊆ d.nodes.map (·.1) := by
      intro q hq
      have hsome : d.node? q ≠ none := by simpa using List.find?_eq_none.1 hfind q hq
      rw [node?, ne_eq, List.lookup_eq_none_iff] at hsome
      push Not at hsome
      obtain ⟨x, hx, hxq⟩ := hsome
      exact List.mem_map.2 ⟨x, hx, by simpa using (by simpa using hxq : q = x.1).symm⟩
    have hnodup : places.Nodup := by
      rw [← hplaces]
      refine List.nodup_range.map fun m n h => temporaryName_injective name ?_
      simpa using h
    have hlength := (List.subperm_of_subset hnodup hused).length_le
    rw [← hplaces, List.length_map, List.length_map, List.length_range] at hlength
    omega

/-! ## The calls of a write -/

section

variable {fails : Call → Bool} {calls : List (Call × (Directory → Option Directory))} {e : Fault}

theorem runCalls_cons (c : Call) (f : Directory → Option Directory) :
    runCalls fails d ((c, f) :: calls) =
      if fails c then (d, .error refused)
      else match f d with
        | none => (d, .error refused)
        | some d₁ => runCalls fails d₁ calls := rfl

theorem runCalls_cons_ok {c : Call} {f : Directory → Option Directory} :
    runCalls fails d ((c, f) :: calls) = (d', .ok ()) ↔
      fails c = false ∧ ∃ d₁, f d = some d₁ ∧ runCalls fails d₁ calls = (d', .ok ()) := by
  rw [runCalls_cons]
  cases fails c <;> cases f d <;> simp

theorem runCalls_nil_ok : runCalls fails d [] = (d', .ok ()) ↔ d = d' := by
  have hnil : runCalls fails d [] = (d, .ok ()) := rfl
  simp [hnil]

theorem runCalls_error (h : runCalls fails d calls = (d', .error e)) : e = refused := by
  induction calls generalizing d with
  | nil => cases h
  | cons c calls ih =>
    obtain ⟨c, f⟩ := c
    rw [runCalls_cons] at h
    split at h
    · cases h
      rfl
    · split at h
      · cases h
        rfl
      · exact ih h

/-- What no call changes is the same where they stop. -/
theorem runCalls_kept {P : Directory → Prop}
    (hP : ∀ c ∈ calls, ∀ d d₁, P d → c.2 d = some d₁ → P d₁) (h : P d) :
    P (runCalls fails d calls).1 := by
  induction calls generalizing d with
  | nil => exact h
  | cons c calls ih =>
    obtain ⟨hc, hcalls⟩ := List.forall_mem_cons.1 hP
    obtain ⟨c, f⟩ := c
    rw [runCalls_cons]
    split
    · exact h
    · split
      · exact h
      · rename_i d₁ hd₁
        exact ih hcalls (hc d d₁ h hd₁)

theorem runCalls_append (before : List (Call × (Directory → Option Directory))) :
    runCalls fails d (before ++ calls) =
      match runCalls fails d before with
      | (d₁, .ok _) => runCalls fails d₁ calls
      | (d₁, .error e) => (d₁, .error e) := by
  induction before generalizing d with
  | nil => rfl
  | cons c before ih =>
    obtain ⟨c, f⟩ := c
    rw [List.cons_append, runCalls_cons, runCalls_cons]
    cases fails c <;> cases f d <;> simp [ih]

theorem setBytes_ok {bytes : ByteArray} (h : setBytes t bytes d = some d') :
    ∃ b mode, d.node? t = some (.file b mode) ∧ d' = d.put t (.file bytes mode) := by
  unfold setBytes at h
  split at h
  · rename_i b mode ht
    exact ⟨b, mode, ht, (Option.some.inj h).symm⟩
  · cases h

theorem setModeAt_ok {mode : Nat} (h : setModeAt t mode d = some d') : ∃ n, d' = d.put t n := by
  unfold setModeAt at h
  split at h
  · exact ⟨_, (Option.some.inj h).symm⟩
  · exact ⟨_, (Option.some.inj h).symm⟩
  · cases h

/-- One file takes the place of another one, or of none. -/
theorem renameTo_ok (ht : d.node? t = some n) (h : renameTo t p d = some d') :
    (∀ mode, d.node? p ≠ some (.directory mode)) ∧
      ∀ q, d'.node? q = if q = p then some n else if q = t then none else d.node? q := by
  unfold renameTo at h
  rw [ht] at h
  split at h
  · cases h
  · rename_i hn hnot
    cases hn
    refine ⟨hnot, fun q => ?_⟩
    rw [← Option.some.inj h, node?_put, node?_erase]
  · rename_i hnone _
    cases hnone

variable {target : Place} {bytes b : ByteArray} {mode : Option Nat} {m : Nat}

/-- All calls but the last one are about the temporary file. -/
theorem fillCalls_eq (t target : Place) (bytes : ByteArray) (mode : Option Nat) :
    ∃ filling, fillCalls t target bytes mode = filling ++ [(.rename, renameTo t target)] ∧
      ∀ c ∈ filling, c.2 = some ∨ c.2 = setBytes t bytes ∨ ∃ k, c.2 = setModeAt t k := by
  cases mode with
  | none => exact ⟨[_, _, _], rfl, by simp⟩
  | some k => exact ⟨[_, _, _, _], rfl, by simp⟩

/-- Where a call fails, only the temporary file has changed. -/
theorem fill_error (h : runCalls fails d (fillCalls t target bytes mode) = (d', .error e)) :
    ∀ q, q ≠ t → d'.node? q = d.node? q := by
  obtain ⟨filling, hcalls, hfilling⟩ := fillCalls_eq t target bytes mode
  rw [hcalls, runCalls_append] at h
  have hkept : ∀ q, q ≠ t → (runCalls fails d filling).1.node? q = d.node? q := by
    refine runCalls_kept (P := fun d₁ => ∀ q, q ≠ t → d₁.node? q = d.node? q) ?_ fun _ _ => rfl
    intro c hc d₁ d₂ hd₁ hd₂ q hq
    rw [← hd₁ q hq]
    rcases hfilling c hc with hc | hc | ⟨k, hc⟩ <;> rw [hc] at hd₂
    · rw [Option.some.inj hd₂]
    · obtain ⟨_, _, -, rfl⟩ := setBytes_ok hd₂
      rw [node?_put, if_neg hq]
    · obtain ⟨_, rfl⟩ := setModeAt_ok hd₂
      rw [node?_put, if_neg hq]
  rcases hr : runCalls fails d filling with ⟨d₁, r⟩
  rw [hr] at h hkept
  cases r with
  | error e =>
    cases h
    exact hkept
  | ok u =>
    dsimp only at h
    rw [runCalls_cons] at h
    split at h
    · cases h
      exact hkept
    · split at h
      · cases h
        exact hkept
      · cases h

/-- A temporary file that is filled and put in place is all that moves. -/
theorem fill_ok (ht : d.node? t = some (.file b m))
    (h : runCalls fails d (fillCalls t target bytes mode) = (d', .ok ())) :
    (∀ k, d.node? target ≠ some (.directory k)) ∧ ∀ q, d'.node? q =
      if q = target then some (.file bytes (mode.getD m)) else if q = t then none
      else d.node? q := by
  -- the temporary file just before it takes its place
  obtain ⟨d₁, hd₁, hrename⟩ : ∃ d₁ : Directory, (∀ q, d₁.node? q =
      if q = t then some (.file bytes (mode.getD m)) else d.node? q) ∧
        renameTo t target d₁ = some d' := by
    cases mode with
    | none =>
      simp only [fillCalls, List.cons_append, List.nil_append, runCalls_cons_ok,
        runCalls_nil_ok, Option.some.injEq, exists_eq_left'] at h
      obtain ⟨-, -, d₁, hset, -, -, d₂, hrename, rfl⟩ := h
      obtain ⟨b', m', ht', rfl⟩ := setBytes_ok hset
      obtain ⟨rfl, rfl⟩ := Node.file.inj (Option.some.inj (ht.symm.trans ht'))
      exact ⟨_, node?_put d t _, hrename⟩
    | some k =>
      simp only [fillCalls, List.cons_append, List.nil_append, runCalls_cons_ok,
        runCalls_nil_ok, Option.some.injEq, exists_eq_left'] at h
      obtain ⟨-, -, d₁, hset, -, -, d₂, hmode, -, d₃, hrename, rfl⟩ := h
      obtain ⟨b', m', ht', rfl⟩ := setBytes_ok hset
      have hfile : (d.put t (.file bytes m')).node? t = some (.file bytes m') := by
        rw [node?_put, if_pos rfl]
      rw [setModeAt, hfile] at hmode
      obtain rfl := Option.some.inj hmode
      refine ⟨_, fun q => ?_, hrename⟩
      rw [node?_put, node?_put]
      split <;> rfl
  obtain ⟨hflat, hd'⟩ := renameTo_ok ((hd₁ t).trans (if_pos rfl)) hrename
  refine ⟨fun k hk => ?_, fun q => ?_⟩
  · refine hflat k ?_
    rw [hd₁, if_neg]
    · exact hk
    · rintro rfl
      cases ht.symm.trans hk
  · rw [hd', hd₁]
    split
    · rfl
    · split <;> rfl

end

/-! ## A write -/

/-- After a file was written it has the new bytes, and the permission bits that it had; everything
else is as it was. -/
structure Replaced (p : Place) (bytes : ByteArray) (d d' : Directory) : Prop where
  flat : ∀ mode, d.node? p ≠ some (.directory mode)
  others : ∀ q n, q ≠ p → d.node? q = some n → d'.node? q = some n
  own : ∃ mode, d'.node? p = some (.file bytes mode) ∧
    ∀ b m, d.node? p = some (.file b m) → mode = m

namespace Replaced

variable {bytes : ByteArray} (h : Replaced p bytes d d')
include h

theorem directories : KeepsDirectories d d' := fun q mode hq =>
  h.others q _ (fun he => h.flat mode (he ▸ hq)) hq

theorem after {d₀ : Directory} (hk : Keeps d₀ d) : Replaced p bytes d₀ d' where
  flat mode hp := h.flat mode (hk p _ hp)
  others q n hq hn := h.others q n hq (hk q n hn)
  own := h.own.imp fun _ ⟨hown, hmode⟩ => ⟨hown, fun b m hb => hmode b m (hk p _ hb)⟩

end Replaced

section

variable {fails : Call → Bool} {name : String} {bytes : ByteArray} {e : Fault} {path : Path}

theorem replaceIn_error (h : replaceIn fails d p name bytes = (d', .error e)) :
    e = refused ∧ ∀ q, d'.node? q = d.node? q := by
  have hfree := node?_temporaryPlace d p name
  unfold replaceIn at h
  dsimp only at h
  split at h
  · cases h
    exact ⟨rfl, fun _ => rfl⟩
  · split at h
    · cases h
    · rename_i d₁ e' hrun
      cases h
      refine ⟨runCalls_error hrun, fun q => ?_⟩
      rw [node?_erase]
      split
      · rename_i hq
        rw [hq, hfree]
      · rename_i hq
        rw [fill_error hrun q hq, node?_put, if_neg hq]

theorem replaceIn_ok (hname : name ≠ "..")
    (h : replaceIn fails d p name bytes = (d', .ok ())) :
    Replaced (if name.isEmpty then p else p ++ [name]) bytes d d' := by
  have hfree := node?_temporaryPlace d p name
  have hne : ¬ (name == "..") = true := by simpa using hname
  unfold replaceIn at h
  dsimp only at h
  rw [if_neg hne] at h
  generalize (if name.isEmpty then p else p ++ [name]) = target at h ⊢
  generalize temporaryPlace d p name = t at h hfree
  split at h
  · cases h
  · split at h
    · rename_i d₁ _ hrun
      cases h
      obtain ⟨hflat, hd'⟩ := fill_ok (by rw [node?_put, if_pos rfl]) hrun
      have hother : ∀ q n, d.node? q = some n → q ≠ t := by
        rintro q n hq rfl
        cases hfree.symm.trans hq
      refine ⟨fun mode hmode => ?_, fun q n hq hn => ?_, _, (hd' target).trans (if_pos rfl), ?_⟩
      · refine hflat mode ?_
        rw [node?_put, if_neg (hother _ _ hmode), hmode]
      · rw [hd', if_neg hq, if_neg (hother q n hn), node?_put, if_neg (hother q n hn), hn]
      · intro b m hb
        rw [fileMode?, hb, Option.getD_some]
    · cases h

theorem replace_error (h : d.replace fails path bytes = (d', .error e)) :
    e = refused ∧ Keeps d d' := by
  unfold replace at h
  split at h
  · cases h
    exact ⟨rfl, Keeps.refl _⟩
  · have hkeeps : Keeps d (d.makeDirectories [] path.parent.names).1 := makeDirectories_keeps
    split at h
    · rename_i d₁ e' hmake
      cases h
      rw [hmake] at hkeeps
      exact ⟨makeDirectories_error hmake, hkeeps⟩
    · rename_i d₁ q hmake
      rw [hmake] at hkeeps
      obtain ⟨he, hsame⟩ := replaceIn_error h
      exact ⟨he, fun r n hr => (hsame r).trans (hkeeps r n hr)⟩

theorem replace_ok (hp : path.Direct) (h : d.replace fails path bytes = (d', .ok ())) :
    path.isAbsolute = false ∧ Replaced path.names bytes d d' := by
  unfold replace at h
  split at h
  · cases h
  · rename_i hroot
    rw [Bool.or_eq_true, not_or, Bool.not_eq_true] at hroot
    refine ⟨hroot.1, ?_⟩
    have hkeeps : Keeps d (d.makeDirectories [] path.parent.names).1 := makeDirectories_keeps
    split at h
    · cases h
    · rename_i d₁ q hmake
      rw [hmake] at hkeeps
      obtain rfl := makeDirectories_direct hmake fun hmem => hp.2 (List.dropLast_subset _ hmem)
      have hname : path.name ≠ ".." ∧
          (if path.name.isEmpty then [] ++ path.parent.names
            else [] ++ path.parent.names ++ [path.name]) = path.names := by
        obtain ⟨hempty, hup⟩ := hp
        rcases List.eq_nil_or_concat path.names with hn | ⟨before, last, hn⟩
        · simp [Path.name, Path.parent, hn]
        · have hlast : last ≠ "" ∧ last ≠ ".." := by
            constructor <;> rintro rfl <;> simp_all
          simp [Path.name, Path.parent, hn, hlast]
      have hreplaced := (replaceIn_ok hname.1 h).after hkeeps
      rwa [hname.2] at hreplaced

end

/-! ## A removal -/

/-- A removal takes away no other file. -/
theorem remove_find {path : Path} (hpath : path.Direct) {name : String}
    (hname : (Path.ofString name).Direct) (hne : Path.ofString name ≠ path)
    (h : d.find path = .ok n) : (d.remove name).1.find path = .ok n := by
  obtain ⟨hroot, hnode⟩ := node?_of_find hpath h
  unfold remove
  split
  · split
    · exact h
    · exact h
    · rename_i q hq
      split
      · exact h
      · rename_i hfile
        obtain ⟨hroot', hsteps⟩ := locate_ok.1 hq
        obtain rfl : q = (Path.ofString name).names := by simpa using steps_direct hname.2 hsteps
        refine find_kept hpath (fun r mode hr => ?_) h ?_
        · rw [node?_erase, if_neg]
          · exact hr
          · rintro rfl
            cases hfile.symm.trans hr
        · rw [node?_erase, if_neg]
          · exact hnode
          · exact fun he => hne (Path.eq_of_names hroot' hroot he.symm)
      · exact h
  · exact h

end Directory

end Lifeline.Store
