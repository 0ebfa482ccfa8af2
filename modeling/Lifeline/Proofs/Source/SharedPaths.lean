import Lifeline.Proofs.Plan.Settled
import Lifeline.Proofs.Source.Merging

/-!
# Rendered files on one path

A path is the path of several files where the rules of a profile say so, or where two participants
have one name in snake case. What is rendered first of all (`renderEach`) are files as they are
written (`written_renderEach`): a header, and behind it one type at most with its members. Those of
one path become one file (`blocks_of_mem_mergeFiles`).

* `keepsHeaders_iff`: the headers of a merged file that may be missing are those behind another one
  of their role.
* `merged_iff_of_render`: when a rendered file has all members and all headers of the files that it
  is made of.
-/

set_option autoImplicit false

namespace Lifeline.Source

/-- The text of every header stands in the content. -/
def KeepsHeaders (own : List File) (content : String) : Prop :=
  ∀ g ∈ own, ∀ b ∈ g.blocks, b.kind = .header → Text.Packed.occursIn b.text content = true

/-- The files of a tree of tests and its code before those of one path become one file. -/
def renderEach (tests : Tests.Tree) (code : Code.Tree) (profile : Profile := .builtin)
    (base : String := "app") : Except NameError (List File) := do
  let r : Renderer := { profile, base, blocks := blocksInTree code }
  let suites ← tests.suites.mapM r.testFile
  let tables ← tests.tables.mapM r.decisionFile
  let classes ← code.classes.mapM r.classFile
  let interfaces ← code.interfaces.mapM r.interfaceFile
  let scaffolds ← code.scaffolds.mapM r.scaffoldFile
  let errors ← r.errorsFile code.exceptions
  return suites ++ tables ++ classes ++ interfaces ++ scaffolds ++ [errors]

theorem render_eq (tests : Tests.Tree) (code : Code.Tree) (profile : Profile) (base : String) :
    render tests code profile base = mergeFiles <$> renderEach tests code profile base := by
  simp [render, renderEach]

/-! ## Files of one path -/

variable {files own : List File} {f g : File}

theorem mergeFiles_concat (files : List File) (g : File) :
    mergeFiles (files ++ [g]) = addFile (mergeFiles files) g := by
  rw [mergeFiles, List.foldl_append]
  rfl

/-- A file goes into the one of its path, or behind the others. -/
theorem mem_addFile (h : f ∈ addFile files g) : (f ∈ files ∧ f.path ≠ g.path) ∨
    (∃ f' ∈ files, f'.path = g.path ∧ f = { f' with
      blocks := addBlocks f'.blocks (g.blocks.map (·.merged g.role)) }) ∨
    (f = g ∧ ∀ f' ∈ files, f'.path ≠ g.path) := by
  unfold addFile at h
  split at h
  · obtain ⟨f', hf', rfl⟩ := List.mem_map.1 h
    by_cases hpath : f'.path = g.path
    · exact .inr (.inl ⟨f', hf', hpath, by rw [if_pos (by simpa using hpath)]⟩)
    · rw [if_neg (by simpa using hpath)]
      exact .inl ⟨hf', hpath⟩
  · rename_i hany
    have hnone : ∀ f' ∈ files, f'.path ≠ g.path := by simpa using hany
    rcases List.mem_append.1 h with h | h
    · exact .inl ⟨h, hnone f h⟩
    · exact .inr (.inr ⟨List.mem_singleton.1 h, hnone⟩)

theorem path_mem_addFile (files : List File) (g : File) :
    g.path ∈ (addFile files g).map (·.path) ∧
      files.map (·.path) ⊆ (addFile files g).map (·.path) := by
  unfold addFile
  split
  · rename_i hany
    have hpaths : (files.map fun f' => if f'.path == g.path then
        { f' with blocks := addBlocks f'.blocks (g.blocks.map (·.merged g.role)) }
        else f').map (·.path) = files.map (·.path) := by
      rw [List.map_map]
      refine List.map_congr_left fun f' _ => ?_
      simp only [Function.comp_apply]
      split <;> rfl
    rw [hpaths]
    obtain ⟨f', hf', hpath⟩ := List.any_eq_true.1 hany
    exact ⟨List.mem_map.2 ⟨f', hf', by simpa using hpath⟩, List.Subset.refl _⟩
  · rw [List.map_append]
    exact ⟨by simp, List.subset_append_left _ _⟩

theorem path_mem_mergeFiles (h : g ∈ files) : g.path ∈ (mergeFiles files).map (·.path) := by
  induction files using List.reverseRecOn with
  | nil => cases h
  | append_singleton files g' ih =>
    rw [mergeFiles_concat]
    obtain ⟨hnew, hold⟩ := path_mem_addFile (mergeFiles files) g'
    rcases List.mem_append.1 h with h | h
    · exact hold (ih h)
    · exact List.mem_singleton.1 h ▸ hnew

/-- **What a merged file is made of**: the files of its path. -/
theorem blocks_of_mem_mergeFiles (h : f ∈ mergeFiles files) :
    files.filter (·.path == f.path) ≠ [] ∧
      f.blocks = mergedBlocks (files.filter (·.path == f.path)) := by
  induction files using List.reverseRecOn generalizing f with
  | nil => cases h
  | append_singleton files g ih =>
    rw [mergeFiles_concat] at h
    rw [List.filter_append]
    obtain ⟨h, hpath⟩ | ⟨f', hf', hpath, rfl⟩ | ⟨rfl, hnone⟩ := mem_addFile h
    · rw [List.filter_cons_of_neg (by simpa using hpath.symm), List.filter_nil, List.append_nil]
      exact ih h
    · obtain ⟨hne, hblocks⟩ := ih hf'
      rw [List.filter_cons_of_pos (by simpa using hpath.symm), List.filter_nil]
      refine ⟨by simp, ?_⟩
      rw [mergedBlocks_concat hne, ← hblocks, ← addBlocks_eq]
    · have hfirst : files.filter (·.path == f.path) = [] := by
        refine List.filter_eq_nil_iff.2 fun g hg he => ?_
        obtain ⟨f', hf', hpath⟩ := List.mem_map.1 (path_mem_mergeFiles hg)
        exact hnone f' hf' (hpath.trans (by simpa using he))
      rw [hfirst, List.filter_cons_of_pos (by simp)]
      exact ⟨by simp, rfl⟩

/-! ## Headers -/

theorem Role.name_inj {r r' : Role} (h : r.name = r'.name) : r = r' := by
  revert h
  cases r <;> cases r' <;> decide

theorem occursIn_content {b : Block} (h : b ∈ f.blocks) :
    b.text.toList <:+: f.content.toList := by
  obtain ⟨before, after, hblocks⟩ := List.append_of_mem h
  rw [File.content, Plan.foldl_text_toList, hblocks]
  exact ⟨before.flatMap (·.text.toList), after.flatMap (·.text.toList), by simp⟩

/-- The blocks of a merged file stay where further files are added. -/
theorem mergedBlocks_prefix (hne : own ≠ []) (more : List File) :
    mergedBlocks own <+: mergedBlocks (own ++ more) := by
  induction more using List.reverseRecOn with
  | nil => simp
  | append_singleton more g ih =>
    rw [← List.append_assoc, mergedBlocks_concat (by simp [hne])]
    exact ih.trans (List.prefix_append _ _)

/-- A header goes into a file as long as none of its role did. -/
theorem preamble_mem (hw : ∀ f ∈ own ++ [g], Written f.blocks) (hne : own ≠ [])
    (hnew : ∀ e ∈ own.tail, e.role ≠ g.role) {b : Block} (hb : b ∈ g.blocks)
    (hk : b.kind = .header) : preamble g.role b ∈ mergedBlocks (own ++ [g]) := by
  obtain ⟨hown, hg⟩ := List.forall_mem_append.1 hw
  obtain ⟨header, rest, hblocks, head, hrest⟩ := (hg g (.head _)).cut
  obtain rfl : b = header := by
    rw [hblocks] at hb
    rcases List.mem_cons.1 hb with hb | hb
    · exact hb
    · obtain ⟨kind, hkind⟩ := hrest b hb
      rw [hk] at hkind
      cases hkind
  have hkey : (preamble g.role b).key ∉ (mergedBlocks own).map (·.key) := fun hmem => by
    obtain ⟨c, hc, hkey⟩ := List.mem_map.1 hmem
    rcases mem_mergedBlocks hown hc with ⟨f, hf, hc⟩ | ⟨hkind, e, he, hname⟩
    · rcases (hown f hf).kinds hc with hkind | ⟨kind, hkind⟩
      all_goals
        have hsame := (Block.key_inj (by simp [hkind]) (by simp [preamble]) hkey).1
        rw [hkind] at hsame
        cases hsame
    · have hsame := (Block.key_inj (by simp [hkind]) (by simp [preamble]) hkey).2
      exact hnew e he (Role.name_inj (hname.symm.trans hsame))
  rw [mergedBlocks_concat hne, hblocks, map_merged head hrest, newBlocks, if_neg hkey]
  exact List.mem_append_right _ (.head _)

/-- **Headers of merged files.** Every header is kept if and only if those are that come behind
another one of their role, the header of the first file apart. -/
theorem keepsHeaders_iff (hw : ∀ g ∈ own, Written g.blocks) (hf : f.blocks = mergedBlocks own) :
    KeepsHeaders own f.content ↔ ∀ first before g after, own = first :: before ++ g :: after →
      (∃ e ∈ before, e.role = g.role) → KeepsHeaders [g] f.content := by
  constructor
  · rintro h first before g after rfl -
    exact List.forall_mem_singleton.2 (h g (by simp))
  · intro h g hg b hb hk
    obtain ⟨before, after, rfl⟩ := List.append_of_mem hg
    rw [Text.Packed.occursIn, Plan.occursIn_iff_infix]
    cases before with
    | nil =>
      have hpre : g.blocks <+: f.blocks := hf ▸ mergedBlocks_prefix (List.cons_ne_nil g []) after
      exact occursIn_content (hpre.subset hb)
    | cons first before =>
      by_cases hrole : ∃ e ∈ before, e.role = g.role
      · have hkept := h first before g after rfl hrole g (.head _) b hb hk
        rwa [Text.Packed.occursIn, Plan.occursIn_iff_infix] at hkept
      · rw [List.append_cons] at hw hf
        have hmem := preamble_mem (List.forall_mem_append.1 hw).1 (List.cons_ne_nil first before)
          (fun e he hsame => hrole ⟨e, he, hsame⟩) hb hk
        have hne : first :: before ++ [g] ≠ [] := List.cons_ne_nil first (before ++ [g])
        have hpre := mergedBlocks_prefix hne after
        rw [← hf] at hpre
        have hinfix := occursIn_content (hpre.subset hmem)
        rw [preamble, String.toList_append] at hinfix
        exact (List.suffix_append _ _).isInfix.trans hinfix

/-! ## Files as they are written -/

theorem forall_mapM {α : Type} {write : α → Writing Block} {P : Block → Prop} {xs : List α}
    {bs : List Block} (h : ∀ x b, write x = .ok b → P b) (hm : xs.mapM write = .ok bs) :
    ∀ b ∈ bs, P b := fun b hb => by
  obtain ⟨x, -, hx⟩ := forall₂_right (mapM_ok.1 hm) b hb
  exact h x b hx

namespace Renderer

variable {r : Renderer}

theorem outer_importBlock {module name : String} {b : Block}
    (h : r.importBlock module name = .ok b) : Outer b := by
  simp only [importBlock, bind_ok, pure_ok] at h
  obtain ⟨text, -, rfl⟩ := h
  exact ⟨⟨_, rfl⟩, rfl, rfl⟩

theorem written_testFile {s : Tests.Suite} (h : r.testFile s = .ok f) : Written f.blocks := by
  simp only [testFile, bind_ok, pure_ok] at h
  obtain ⟨subject, -, header, -, module, -, import_, himport, errors, -, imports, himports, mocks,
    hmocks, groups, hgroups, path, -, rfl⟩ := h
  simp only [List.cons_append]
  refine .plain rfl ?_
  simp only [List.forall_mem_cons, List.forall_mem_append]
  refine ⟨outer_importBlock himport,
    ⟨forall_mapM (fun _ _ => outer_importBlock) himports, ?_⟩, ?_⟩
  · refine forall_mapM (fun m b hb => ?_) hmocks
    simp only [bind_ok, pure_ok] at hb
    obtain ⟨text, -, rfl⟩ := hb
    exact ⟨⟨_, rfl⟩, rfl, rfl⟩
  · intro b hb
    obtain ⟨bs, hbs, hb⟩ := List.mem_flatten.1 hb
    obtain ⟨m, -, hm⟩ := forall₂_right (mapM_ok.1 hgroups) bs hbs
    have hgroup : ∀ b ∈ bs, Outer b := forall_mapM (fun g b hb => by
      simp only [bind_ok, pure_ok] at hb
      obtain ⟨text, -, rfl⟩ := hb
      exact ⟨⟨_, rfl⟩, rfl, rfl⟩) hm
    exact hgroup b hb

theorem written_decisionFile {t : Tests.DecisionTable} (h : r.decisionFile t = .ok f) :
    Written f.blocks := by
  simp only [decisionFile, bind_ok, pure_ok] at h
  obtain ⟨participant, -, pending, -, module, -, header, -, methods, hmethods, path, -, rfl⟩ := h
  refine .plain rfl (forall_mapM (fun m b hb => ?_) hmethods)
  simp only [decisionBlock, bind_ok, pure_ok] at hb
  obtain ⟨rows, -, text, -, rfl⟩ := hb
  exact ⟨⟨_, rfl⟩, rfl, rfl⟩

theorem inner_helperBlock {x : Code.Helper} {b : Block} (h : r.helperBlock x = .ok b) :
    Inner b := by
  unfold helperBlock at h
  dsimp only at h
  split at h
  all_goals
    simp only [bind_ok, pure_ok] at h
    obtain ⟨text, -, rfl⟩ := h
    exact ⟨⟨_, rfl⟩, rfl⟩

theorem written_classFile {c : Code.Class} (h : r.classFile c = .ok f) : Written f.blocks := by
  simp only [classFile, bind_ok] at h
  obtain ⟨subject, -, h⟩ := h
  -- with or without collaborators, the blocks are the same
  split at h
  all_goals
    simp only [bind_ok, pure_ok, Except.ok.injEq, exists_eq_left'] at h
    obtain ⟨assigned, -, module, -, header, -, top, -, constants, hconstants, methods, hmethods,
      helpers, hhelpers, path, -, rfl⟩ := h
    simp only [List.cons_append]
    refine .typed rfl rfl ?_
    simp only [List.forall_mem_append]
    refine ⟨⟨forall_mapM (fun k b hb => ?_) hconstants, forall_mapM (fun m b hb => ?_) hmethods⟩,
      forall_mapM (fun _ _ => inner_helperBlock) hhelpers⟩
    · simp only [bind_ok, pure_ok] at hb
      obtain ⟨text, -, rfl⟩ := hb
      exact ⟨⟨_, rfl⟩, rfl⟩
    · simp only [methodBlock, bind_ok, pure_ok] at hb
      obtain ⟨inner, -, body, -, signature, -, rfl⟩ := hb
      exact ⟨⟨_, rfl⟩, rfl⟩

theorem written_interfaceFile {i : Code.Interface} (h : r.interfaceFile i = .ok f) :
    Written f.blocks := by
  simp only [interfaceFile, bind_ok, pure_ok] at h
  obtain ⟨name, -, header, -, users, -, top, -, methods, hmethods, path, -, rfl⟩ := h
  refine .typed rfl rfl (forall_mapM (fun m b hb => ?_) hmethods)
  simp only [bind_ok, pure_ok] at hb
  obtain ⟨text, -, rfl⟩ := hb
  exact ⟨⟨_, rfl⟩, rfl⟩

theorem written_scaffoldFile {s : Code.Scaffold} (h : r.scaffoldFile s = .ok f) :
    Written f.blocks := by
  simp only [scaffoldFile, bind_ok, pure_ok] at h
  obtain ⟨name, -, header, -, top, -, methods, hmethods, path, -, rfl⟩ := h
  refine .typed rfl rfl (forall_mapM (fun m b hb => ?_) hmethods)
  simp only [bind_ok, pure_ok] at hb
  obtain ⟨text, -, rfl⟩ := hb
  exact ⟨⟨_, rfl⟩, rfl⟩

theorem written_errorsFile {es : List String} (h : r.errorsFile es = .ok f) :
    Written f.blocks := by
  simp only [errorsFile, bind_ok, pure_ok] at h
  obtain ⟨header, -, classes, hclasses, path, -, rfl⟩ := h
  refine .plain rfl (forall_mapM (fun e b hb => ?_) hclasses)
  simp only [bind_ok, pure_ok] at hb
  obtain ⟨text, -, rfl⟩ := hb
  exact ⟨⟨_, rfl⟩, rfl, rfl⟩

end Renderer

/-! ## All files -/

section

variable {tests : Tests.Tree} {code : Code.Tree} {profile : Profile} {base : String}

/-- **Every file is written** with a header, and at most one type behind it. -/
theorem written_renderEach (h : renderEach tests code profile base = .ok files) :
    ∀ f ∈ files, Written f.blocks := by
  simp only [renderEach, bind_ok, pure_ok] at h
  obtain ⟨suites, hsuites, tables, htables, classes, hclasses, interfaces, hinterfaces, scaffolds,
    hscaffolds, errors, herrors, rfl⟩ := h
  have hall : ∀ {α : Type} {write : α → Writing File} {xs : List α} {fs : List File},
      (∀ x f, write x = .ok f → Written f.blocks) → xs.mapM write = .ok fs →
        ∀ f ∈ fs, Written f.blocks := fun hwrite hm f hf => by
    obtain ⟨x, -, hx⟩ := forall₂_right (mapM_ok.1 hm) f hf
    exact hwrite x f hx
  simp only [List.forall_mem_append, List.forall_mem_singleton]
  exact ⟨⟨⟨⟨⟨hall (fun _ _ => Renderer.written_testFile) hsuites,
    hall (fun _ _ => Renderer.written_decisionFile) htables⟩,
    hall (fun _ _ => Renderer.written_classFile) hclasses⟩,
    hall (fun _ _ => Renderer.written_interfaceFile) hinterfaces⟩,
    hall (fun _ _ => Renderer.written_scaffoldFile) hscaffolds⟩,
    Renderer.written_errorsFile herrors⟩

/-- **Files on one path.** In a rendered file, each type has exactly the members that its own file
has for it if and only if every further file of the path fits behind the files before it; and the
text of every header is there if and only if the headers are that come behind another one of their
role, the header of the first file apart. -/
theorem merged_iff_of_render (h : render tests code profile base = .ok files) :
    ∃ each, renderEach tests code profile base = .ok each ∧ ∀ f ∈ files,
      (KeepsMembers (each.filter (·.path == f.path)) f.blocks ↔
        ∀ before g after, each.filter (·.path == f.path) = before ++ g :: after → before ≠ [] →
          FitsBehind before g) ∧
      (KeepsHeaders (each.filter (·.path == f.path)) f.content ↔
        ∀ first before g after, each.filter (·.path == f.path) = first :: before ++ g :: after →
          (∃ e ∈ before, e.role = g.role) → KeepsHeaders [g] f.content) := by
  rw [render_eq, map_ok] at h
  obtain ⟨each, heach, rfl⟩ := h
  refine ⟨each, heach, fun f hf => ?_⟩
  have hblocks := (blocks_of_mem_mergeFiles hf).2
  have hw : ∀ g ∈ each.filter (·.path == f.path), Written g.blocks := fun g hg =>
    written_renderEach heach g (List.mem_filter.1 hg).1
  exact ⟨by rw [hblocks, keepsMembers_iff hw], keepsHeaders_iff hw hblocks⟩

end

/-- The built-in profile with one path for all scaffolds. -/
def leavesTogether : Profile := { paths := { scaffoldFile := "src/leaves.py" } }

/-- Scaffolds with one method each. -/
def leaves (methods : List (String × String)) : Code.Tree where
  classes := []
  interfaces := []
  scaffolds := methods.map fun (name, method) => {
    name
    methods := [{ name := method, parameters := ["x"], returns := none }]
    status := .pending }
  exceptions := []

theorem merged_iff_leaves : ∃ files each,
    render { componentUnderTest := "A" } (leaves [("B", "load"), ("C", "send")]) leavesTogether =
      .ok files ∧
    renderEach { componentUnderTest := "A" } (leaves [("B", "load"), ("C", "send")])
      leavesTogether = .ok each ∧
    ∀ f ∈ files,
      (KeepsMembers (each.filter (·.path == f.path)) f.blocks ↔
        ∀ before g after, each.filter (·.path == f.path) = before ++ g :: after → before ≠ [] →
          FitsBehind before g) ∧
      (KeepsHeaders (each.filter (·.path == f.path)) f.content ↔
        ∀ first before g after, each.filter (·.path == f.path) = first :: before ++ g :: after →
          (∃ e ∈ before, e.role = g.role) → KeepsHeaders [g] f.content) := by
  have hsome : (render { componentUnderTest := "A" } (leaves [("B", "load"), ("C", "send")])
      leavesTogether).toOption.isSome = true := by decide +kernel
  obtain ⟨files, hfiles⟩ := Option.isSome_iff_exists.1 hsome
  have hrender := toOption_eq_some.1 hfiles
  obtain ⟨each, heach, hmerged⟩ := merged_iff_of_render hrender
  exact ⟨files, each, hrender, heach, hmerged⟩

/-- Members get lost: two scaffolds on one path with methods of one name. -/
theorem not_merged_leaves : ¬ ∀ (tests : Tests.Tree) (code : Code.Tree) (profile : Profile)
    (base : String) (files each : List File), render tests code profile base = .ok files →
      renderEach tests code profile base = .ok each → ∀ f ∈ files,
        KeepsMembers (each.filter (·.path == f.path)) f.blocks ∧
        KeepsHeaders (each.filter (·.path == f.path)) f.content := by
  intro h
  have hlost : ((renderEach { componentUnderTest := "A" } (leaves [("B", "load"), ("C", "load")])
      leavesTogether).toOption.any fun each => (mergeFiles each).any fun f =>
        !decide (KeepsMembers (each.filter (·.path == f.path)) f.blocks)) = true := by
    decide +kernel
  obtain ⟨each, hsome, hany⟩ := (Option.any_eq_true _ _).1 hlost
  obtain ⟨f, hf, hnot⟩ := List.any_eq_true.1 hany
  have heach := toOption_eq_some.1 hsome
  have hrender := (render_eq _ _ _ _).trans (congrArg (mergeFiles <$> ·) heach)
  have hkept := (h _ _ _ _ _ each hrender heach f hf).1
  simp [hkept] at hnot

end Lifeline.Source
