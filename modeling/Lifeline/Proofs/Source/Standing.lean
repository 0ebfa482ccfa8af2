import Lifeline.Proofs.Lists
import Lifeline.Proofs.Name.Letters
import Lifeline.Proofs.Plan.Found
import Lifeline.Proofs.Source.Texts

/-!
# Every block declares its name

A template that declares something has the line of the declaration
(`TemplateKey.declares_pieces`), and so has the text that is made of it
(`Renderer.stands_fill`). So every block that is written is one of whole lines, among them the line
that declares its name (`Laid`). There is one lemma for each kind of file; putting files together
keeps the blocks as they are (`laid_render`).
-/

set_option autoImplicit false

namespace Lifeline

namespace TemplateKey

open Template (Piece)

/-- What a template declares, by the name in one of its slots. An import line is made of two. -/
def declares : TemplateKey → Option (DeclarationKind × String)
  | .mockDeclaration => some (.mock, "mock")
  | .groupHeader => some (.group, "group")
  | .decisionMethod => some (.decision, "method")
  | .classHeader => some (.classType, "subject")
  | .constant => some (.constant, "constant")
  | .methodSignature => some (.method, "method")
  | .predicate => some (.predicate, "predicate")
  | .iterationSourceMethod => some (.loopSource, "name")
  | .interfaceClass => some (.interface, "name")
  | .interfaceMethod => some (.interfaceMethod, "method")
  | .scaffoldClass => some (.scaffold, "name")
  | .scaffoldMethod => some (.scaffoldMethod, "method")
  | .exceptionClass => some (.exception, "exception")
  | _ => none

/-- The line of a declaration stands in its template, behind another line. -/
theorem declares_pieces {key : TemplateKey} {kind : DeclarationKind} {slot : String}
    (h : key.declares = some (kind, slot)) : kind ≠ .importLine ∧
      .char '\n' :: kind.lead.map Piece.char ++
        .slot { name := slot.toList } :: kind.follow.map Piece.char <:+: key.pieces := by
  unfold pieces
  cases key
  all_goals
    first
    | cases h; done
    | obtain ⟨rfl, rfl⟩ := Prod.mk.inj (Option.some.inj h)
      refine ⟨DeclarationKind.noConfusion, ?_⟩
      dsimp only [builtin, Template.slotText]
      repeat rw [String.toList_append]
      repeat rw [String.toList_ofList]
      decide +kernel

theorem importLine_pieces : importLine.pieces =
    "from ".toList.map Piece.char ++ .slot { name := "module".toList } ::
      " import ".toList.map Piece.char ++ [.slot { name := "name".toList }, .char '\n'] := by
  unfold pieces
  dsimp only [builtin, Template.slotText]
  repeat rw [String.toList_append]
  repeat rw [String.toList_ofList]
  decide

end TemplateKey

theorem Template.flatMap_filled_char (values : Values) (cs : List Char) :
    (cs.map Piece.char).flatMap (·.filled values) = cs := by
  induction cs with
  | nil => rfl
  | cons c cs ih => rw [List.map_cons, List.flatMap_cons, ih]; rfl

namespace Source

open Plan (Stands)

/-! ## Blocks -/

/-- The names of types and imports: words, and the exceptions. A group has a name. -/
def Spelled (exceptions : List String) (kind : DeclarationKind) (name : String) : Prop :=
  (Name.IsWord name ∧ (kind = .group → name ≠ "")) ∨ name ∈ exceptions

/-- A block as it is written: whole lines, among them the one that declares its name. -/
structure Laid (exceptions : List String) (b : Block) : Prop where
  whole : Text.Whole b.text.toList
  stands : ∀ kind, b.kind = .declaration kind → Stands kind b.name b.text
  spelled : ∀ kind, b.kind = .declaration kind → kind.endsWord = true →
    Spelled exceptions kind b.name
  abstract : b.isAbstract = true → b.kind = .declaration .interface

variable {exceptions : List String}

theorem laid_of_not_declaration {b : Block} (hw : Text.Whole b.text.toList)
    (hk : ∀ kind, b.kind ≠ .declaration kind) (ha : b.isAbstract = false) : Laid exceptions b where
  whole := hw
  stands kind h := absurd h (hk kind)
  spelled kind h := absurd h (hk kind)
  abstract h := by rw [ha] at h; cases h

theorem laid_header {text : String} (h : Text.Whole text.toList) :
    Laid exceptions { kind := .header, name := "header", text } :=
  laid_of_not_declaration h (fun _ => BlockKind.noConfusion) rfl

theorem laid_declaration {kind : DeclarationKind} {name text : String} {isAbstract : Bool}
    (hw : Text.Whole text.toList) (ht : Stands kind name text)
    (hs : kind.endsWord = true → Spelled exceptions kind name)
    (ha : isAbstract = true → kind = .interface) :
    Laid exceptions { kind := .declaration kind, name, text, isAbstract } := by
  refine ⟨hw, ?_, ?_, fun h => by rw [ha h]⟩
  · rintro _ ⟨⟩
    exact ht
  · rintro _ ⟨⟩
    exact hs

/-- The header of a file that is merged has no declaration to be looked for. -/
theorem Laid.merged {b : Block} (h : Laid exceptions b) (role : Role) :
    Laid exceptions (b.merged role) := by
  unfold Block.merged
  split
  · refine laid_of_not_declaration ?_ (fun _ => BlockKind.noConfusion) rfl
    rw [String.toList_append]
    exact Text.Whole.append (by simp [Text.Whole]) h.whole
  · exact h

theorem laid_mapM {α : Type} {write : α → Writing Block} {xs : List α} {bs : List Block}
    (h : ∀ x ∈ xs, ∀ b, write x = .ok b → Laid exceptions b) (hm : xs.mapM write = .ok bs) :
    ∀ b ∈ bs, Laid exceptions b := fun b hb => by
  obtain ⟨x, hx, hxb⟩ := forall₂_right (mapM_ok.1 hm) b hb
  exact h x hx b hxb

namespace Renderer

open Tests (Group Suite)

variable {r : Renderer} (hr : r.profile = .builtin)
include hr

/-- **A text declares** the name in the slot of its template. -/
theorem stands_fill (key : TemplateKey) {kind : DeclarationKind} {slot name text : String}
    {values : Template.Values} (hk : key.declares = some (kind, slot))
    (hv : values.map (·.1) = key.slots) (hname : values.lookup slot = some name)
    (h : r.fill key values = .ok text) : Stands kind name text := by
  obtain ⟨himport, before, after, hpieces⟩ := TemplateKey.declares_pieces hk
  have hfilled : Template.Piece.filled values (.slot { name := slot.toList }) = name.toList := by
    rw [Template.Piece.filled, String.ofList_toList, hname]
    rfl
  refine ⟨before.flatMap (·.filled values) ++ ['\n'], kind.lead, after.flatMap (·.filled values),
    ?_, fun c hc => by simpa [eq_comm] using hc, .plain himport⟩
  rw [fill_text hr hv h, ← hpieces]
  simp only [List.flatMap_append, List.flatMap_cons, Template.flatMap_filled_char, hfilled]
  simp [Template.Piece.filled]

/-- So does an import line. -/
theorem stands_import {module name text : String} (hm : Text.Solid module.toList)
    (h : r.fill .importLine [("module", module), ("name", name)] = .ok text) :
    Stands .importLine name text := by
  refine ⟨[], "from ".toList ++ (module.toList ++ " import ".toList), [], ?_, Text.whole_nil,
    .origin hm⟩
  rw [fill_text hr rfl h, TemplateKey.importLine_pieces]
  simp [Template.Piece.filled, List.lookup_cons, DeclarationKind.follow]

theorem laid_fill (key : TemplateKey) {kind : DeclarationKind} {slot name text : String}
    {values : Template.Values} (hk : key.declares = some (kind, slot)) (hline : key.endsLine = true)
    (hv : values.map (·.1) = key.slots) (hname : values.lookup slot = some name)
    (hs : kind.endsWord = true → Spelled exceptions kind name)
    (h : r.fill key values = .ok text) :
    Laid exceptions { kind := .declaration kind, name, text } :=
  laid_declaration (lines_fill hr hv hline text h) (stands_fill hr key hk hv hname h) hs
    Bool.noConfusion

/-! ## Modules -/

omit hr in
theorem path_blocks (blocks : List (Int × CodeBlock)) (rule subject : String) :
    ({ r with blocks } : Renderer).path rule subject = r.path rule subject := rfl

omit hr in
theorem path_ok {rule subject text : String} (h : r.path rule subject = .ok text) :
    Template.fill rule [("base", r.base), ("base_path", Text.Packed.replace "." "/" r.base),
      ("subject", subject), ("subject_snake", Name.snake subject)] = .ok text := by
  unfold path at h
  split at h
  · rename_i hfill
    obtain rfl := Except.ok.inj h
    exact hfill
  · cases h

variable (hbase : ∀ c ∈ r.base.toList, Text.isBlank c = false)
include hbase

omit hr in
/-- What begins with the base namespace and a point, without blanks. -/
theorem solid_base {name : List Char} (h : ∀ c ∈ name, Text.isBlank c = false) :
    Text.Solid (r.base.toList ++ '.' :: name) := by
  refine ⟨by simp, fun c hc => ?_⟩
  rcases List.mem_append.1 hc with hc | hc
  · exact hbase c hc
  · rcases List.mem_cons.1 hc with rfl | hc
    · decide
    · exact h c hc

theorem solid_moduleOf {subject module : String} (h : r.moduleOf subject = .ok module) :
    Text.Solid module.toList := by
  have hfill : ∀ base path name snake : String, Template.fill Profile.builtin.paths.module
      [("base", base), ("base_path", path), ("subject", name), ("subject_snake", snake)] =
        .ok (.ofList (base.toList ++ '.' :: (snake.toList ++ []))) := fun _ _ _ _ => by
    with_unfolding_all rfl
  rw [moduleOf, hr] at h
  obtain rfl := Except.ok.inj ((hfill _ _ _ _).symm.trans (path_ok h))
  rw [String.toList_ofList, List.append_nil]
  refine solid_base hbase fun c hc => ?_
  cases hblank : Text.isBlank c with
  | false => rfl
  | true =>
    have hword := Name.isWord_snake subject c hc
    rw [Text.isWord_of_isBlank hblank] at hword
    cases hword

theorem solid_errorsModule {module : String}
    (h : r.path r.profile.paths.errorsModule = .ok module) : Text.Solid module.toList := by
  have hfill : ∀ base path name snake : String, Template.fill Profile.builtin.paths.errorsModule
      [("base", base), ("base_path", path), ("subject", name), ("subject_snake", snake)] =
        .ok (.ofList (base.toList ++ '.' :: ['e', 'r', 'r', 'o', 'r', 's'])) := fun _ _ _ _ => by
    with_unfolding_all rfl
  rw [hr] at h
  obtain rfl := Except.ok.inj ((hfill _ _ _ _).symm.trans (path_ok h))
  rw [String.toList_ofList]
  exact solid_base hbase (Text.not_isBlank_of_all (by decide))

/-! ## Test files -/

omit hbase in
theorem spelled_typeName {participant name : String} {kind : DeclarationKind}
    (h : r.typeName participant = .ok name) (hk : kind ≠ .group) :
    Spelled exceptions kind name := by
  rw [typeName, hr] at h
  exact .inl ⟨NamingRules.typeName_word h, fun hgroup => absurd hgroup hk⟩

omit hbase in
theorem laid_importBlock {module name : String} (hm : Text.Solid module.toList)
    (hs : Spelled exceptions .importLine name) {b : Block}
    (h : r.importBlock module name = .ok b) : Laid exceptions b := by
  simp only [importBlock, bind_ok, pure_ok] at h
  obtain ⟨text, htext, rfl⟩ := h
  exact laid_declaration (lines_fill hr rfl rfl text htext) (stands_import hr hm htext)
    (fun _ => hs) Bool.noConfusion

omit hr hbase in
/-- The text of a group begins with its header. -/
theorem groupText_header {s : Suite} {method : String} {parameters : List String} {g : Group}
    {text : String} (h : r.groupText s method parameters g = .ok text) :
    ∃ header rest, text = header ++ rest ∧ r.fill .groupHeader
      [("group", g.name), ("description", Json.escape g.description),
        ("fixtures", furtherParameters (s.mocks.map (·.name)))] = .ok header := by
  simp only [groupText, bind_ok] at h
  obtain ⟨header, hheader, mocks, -, own, -, values, -, loops, -, elements, -, guards, -, stubs, -,
    subject, -, collaborators, -, construction, -, helpers, -, arguments, -, h⟩ := h
  split at h
  all_goals
    simp only [bind_ok, pure_ok] at h
    obtain ⟨invoke, -, cases, -, rfl⟩ := h
    exact ⟨header, _, by simp only [String.append_assoc]; rfl, hheader⟩

theorem laid_testFile {s : Suite} (hg : ∀ g ∈ s.groups, Name.IsWord g.name ∧ g.name ≠ "")
    (he : Code.exceptions s.groups ⊆ exceptions) {f : File} (h : r.testFile s = .ok f) :
    r.path r.profile.paths.testFile s.subject = .ok f.path ∧
      ∀ b ∈ f.blocks, Laid exceptions b := by
  simp only [testFile, bind_ok, pure_ok] at h
  obtain ⟨subject, hsubject, header, hheader, module, hmodule, import_, himport, errors, herrors,
    imports, himports, mocks, hmocks, groups, hgroups, path, hpath, rfl⟩ := h
  have hfirst : Laid exceptions import_ := laid_importBlock hr (solid_moduleOf hr hbase hmodule)
    (spelled_typeName hr hsubject DeclarationKind.noConfusion) himport
  have hrest := laid_mapM (fun e hmem b => laid_importBlock hr (solid_errorsModule hr hbase herrors)
    (.inr (he hmem))) himports
  have hdoubles : ∀ b ∈ mocks, Laid exceptions b := laid_mapM (fun m _ b hb => by
    simp only [bind_ok, pure_ok] at hb
    obtain ⟨text, htext, rfl⟩ := hb
    exact laid_fill hr .mockDeclaration rfl rfl rfl rfl Bool.noConfusion htext) hmocks
  simp only [List.cons_append, List.forall_mem_cons, List.forall_mem_append]
  refine ⟨hpath, laid_header (lines_fill hr rfl rfl header hheader), hfirst, ⟨hrest, hdoubles⟩,
    fun b hb => ?_⟩
  obtain ⟨bs, hbs, hb⟩ := List.mem_flatten.1 hb
  obtain ⟨m, hm, hbs⟩ := forall₂_right (mapM_ok.1 hgroups) bs hbs
  refine laid_mapM (fun g hgm b hb => ?_) hbs b hb
  simp only [bind_ok, pure_ok] at hb
  obtain ⟨text, htext, rfl⟩ := hb
  obtain ⟨header, rest, rfl, hheader⟩ := groupText_header htext
  obtain ⟨hword, hne⟩ := hg g (List.mem_flatMap.2 ⟨m, hm, hgm⟩)
  refine laid_declaration (lines_groupText hr s m.name m.parameters g _ htext) ?_
    (fun _ => .inl ⟨hword, fun _ => hne⟩) Bool.noConfusion
  exact (stands_fill hr .groupHeader rfl rfl rfl hheader).append rest

omit hbase in
theorem laid_decisionFile {t : Tests.DecisionTable} {f : File} (h : r.decisionFile t = .ok f) :
    r.path r.profile.paths.decisionTableFile t.participant = .ok f.path ∧
      ∀ b ∈ f.blocks, Laid exceptions b := by
  simp only [decisionFile, bind_ok, pure_ok] at h
  obtain ⟨participant, -, pending, -, module, -, header, hheader, methods, hmethods, path, hpath,
    rfl⟩ := h
  refine ⟨hpath, List.forall_mem_cons.2 ⟨laid_header (lines_fill hr rfl rfl header hheader), ?_⟩⟩
  refine laid_mapM (fun m _ b hb => ?_) hmethods
  simp only [decisionBlock, bind_ok, pure_ok] at hb
  obtain ⟨rows, -, text, htext, rfl⟩ := hb
  exact laid_fill hr .decisionMethod rfl rfl rfl rfl Bool.noConfusion htext

/-! ## Code files -/

omit hbase

theorem laid_methodBlock {m : Code.Method} {b : Block} (h : r.methodBlock m = .ok b) :
    Laid exceptions b := by
  simp only [methodBlock, bind_ok, pure_ok] at h
  obtain ⟨inner, hinner, body, hbody, signature, hsignature, rfl⟩ := h
  have hw : Text.Whole body.toList :=
    lines_orEmptyBody hr (lines_bodyText hr methodLevel m.body _ hinner) _ hbody
  refine laid_declaration (whole_append (lines_fill hr rfl rfl _ hsignature) hw) ?_
    Bool.noConfusion Bool.noConfusion
  exact (stands_fill hr .methodSignature rfl rfl rfl hsignature).append body

theorem laid_helperBlock {x : Code.Helper} {b : Block} (h : r.helperBlock x = .ok b) :
    Laid exceptions b := by
  unfold helperBlock at h
  dsimp only at h
  split at h
  all_goals
    simp only [bind_ok, pure_ok] at h
    obtain ⟨text, htext, rfl⟩ := h
  · exact laid_fill hr .predicate rfl rfl rfl rfl Bool.noConfusion htext
  · exact laid_fill hr .iterationSourceMethod rfl rfl rfl rfl Bool.noConfusion htext

theorem laid_classTop {subject participant description parameters assignments top : String}
    (hsubject : r.typeName participant = .ok subject) (hw : Text.Whole assignments.toList)
    (h : r.fill .classHeader [("subject", subject), ("description", description),
      ("parameters", parameters), ("assignments", assignments)] = .ok top) :
    Laid exceptions { kind := .declaration .classType, name := subject, text := top } := by
  obtain ⟨ps, hps⟩ := TemplateKey.classHeader_pieces
  refine laid_declaration (whole_fill hr rfl hps ?_ h)
    (stands_fill hr .classHeader rfl rfl rfl h)
    (fun _ => spelled_typeName hr hsubject DeclarationKind.noConfusion) Bool.noConfusion
  simpa [List.lookup_cons] using hw

theorem laid_classFile {c : Code.Class} {f : File} (h : r.classFile c = .ok f) :
    r.path r.profile.paths.implementationFile c.subject = .ok f.path ∧
      ∀ b ∈ f.blocks, Laid exceptions b := by
  simp only [classFile, bind_ok] at h
  obtain ⟨subject, hsubject, h⟩ := h
  split at h
  case' isTrue =>
    simp only [bind_ok, pure_ok, Except.ok.injEq, exists_eq_left'] at h
    obtain ⟨assigned, hassigned, h⟩ := h
    have hw : Text.Whole assigned.toList := lines_fill1 hr rfl rfl _ hassigned
  case' isFalse =>
    simp only [bind_ok, pure_ok, Except.ok.injEq, exists_eq_left'] at h
    obtain ⟨assigned, hassigned, h⟩ := h
    have hw : Text.Whole (concat assigned).toList :=
      whole_concat (fun _ _ => lines_fill1 hr rfl rfl) hassigned
  -- With or without collaborators, what follows the assignments is the same.
  all_goals
    obtain ⟨module, -, header, hheader, top, htop, constants, hconstants, methods, hmethods,
      helpers, hhelpers, path, hpath, rfl⟩ := h
    simp only [List.cons_append, List.forall_mem_cons, List.forall_mem_append]
    refine ⟨hpath, laid_header (lines_fill hr rfl rfl header hheader),
      laid_classTop hr hsubject hw htop,
      ⟨laid_mapM (fun k _ b hb => ?_) hconstants,
        laid_mapM (fun m _ b => laid_methodBlock hr) hmethods⟩,
      laid_mapM (fun x _ b => laid_helperBlock hr) hhelpers⟩
    simp only [bind_ok, pure_ok] at hb
    obtain ⟨text, htext, rfl⟩ := hb
    exact laid_fill hr .constant rfl rfl rfl rfl Bool.noConfusion htext

theorem laid_interfaceFile {i : Code.Interface} {f : File} (h : r.interfaceFile i = .ok f) :
    r.path r.profile.paths.interfaceFile i.name = .ok f.path ∧
      ∀ b ∈ f.blocks, Laid exceptions b := by
  simp only [interfaceFile, bind_ok, pure_ok] at h
  obtain ⟨name, hname, header, hheader, users, -, top, htop, methods, hmethods, path, hpath,
    rfl⟩ := h
  simp only [List.forall_mem_cons]
  refine ⟨hpath, laid_header (lines_fill1 hr rfl rfl header hheader), ?_,
    laid_mapM (fun m _ b hb => ?_) hmethods⟩
  · exact laid_declaration (lines_fill hr rfl rfl _ htop)
      (stands_fill hr .interfaceClass rfl rfl rfl htop)
      (fun _ => spelled_typeName hr hname DeclarationKind.noConfusion) fun _ => rfl
  · simp only [bind_ok, pure_ok] at hb
    obtain ⟨text, htext, rfl⟩ := hb
    exact laid_fill hr .interfaceMethod rfl rfl rfl rfl Bool.noConfusion htext

theorem laid_scaffoldFile {s : Code.Scaffold} {f : File} (h : r.scaffoldFile s = .ok f) :
    r.path r.profile.paths.scaffoldFile s.name = .ok f.path ∧
      ∀ b ∈ f.blocks, Laid exceptions b := by
  simp only [scaffoldFile, bind_ok, pure_ok] at h
  obtain ⟨name, hname, header, hheader, top, htop, methods, hmethods, path, hpath, rfl⟩ := h
  simp only [List.forall_mem_cons]
  refine ⟨hpath, laid_header (lines_fill1 hr rfl rfl header hheader), ?_,
    laid_mapM (fun m _ b hb => ?_) hmethods⟩
  · exact laid_fill hr .scaffoldClass rfl rfl rfl rfl
      (fun _ => spelled_typeName hr hname DeclarationKind.noConfusion) htop
  · simp only [bind_ok, pure_ok] at hb
    obtain ⟨text, htext, rfl⟩ := hb
    exact laid_fill hr .scaffoldMethod rfl rfl rfl rfl Bool.noConfusion htext

omit hr in
theorem errorsFile_blocks (blocks : List (Int × CodeBlock)) (es : List String) :
    ({ r with blocks } : Renderer).errorsFile es = r.errorsFile es := rfl

theorem laid_errorsFile {f : File} (h : r.errorsFile exceptions = .ok f) :
    r.path r.profile.paths.errorsFile "" = .ok f.path ∧
      ∀ b ∈ f.blocks, Laid exceptions b := by
  simp only [errorsFile, bind_ok, pure_ok] at h
  obtain ⟨header, hheader, classes, hclasses, path, hpath, rfl⟩ := h
  simp only [List.forall_mem_cons]
  refine ⟨hpath, laid_header (lines_fill hr rfl rfl header hheader), laid_mapM (fun e he b hb => ?_)
    hclasses⟩
  simp only [bind_ok, pure_ok] at hb
  obtain ⟨text, htext, rfl⟩ := hb
  exact laid_fill hr .exceptionClass rfl rfl rfl rfl (fun _ => .inr he) htext

end Renderer

/-! ## All files -/

/-- What holds of all files, holds of the files that they are merged into. -/
theorem forall_mergeFiles {P : File → Prop} (hmerged : ∀ f g, P f → P g →
      P { g with blocks := addBlocks g.blocks (f.blocks.map (·.merged f.role)) })
    {files : List File} (h : ∀ f ∈ files, P f) : ∀ f ∈ mergeFiles files, P f := by
  have hadd : ∀ {merged : List File} {f : File}, (∀ g ∈ merged, P g) → P f →
      ∀ g ∈ addFile merged f, P g := by
    intro merged f hfiles hf g hg
    unfold addFile at hg
    split at hg
    · obtain ⟨g', hg', rfl⟩ := List.mem_map.1 hg
      split
      · exact hmerged f g' hf (hfiles g' hg')
      · exact hfiles g' hg'
    · rcases List.mem_append.1 hg with hg | hg
      · exact hfiles g hg
      · exact List.mem_singleton.1 hg ▸ hf
  have hall : ∀ {files merged : List File}, (∀ f ∈ files, P f) → (∀ g ∈ merged, P g) →
      ∀ g ∈ files.foldl addFile merged, P g := by
    intro files
    induction files with
    | nil => exact fun _ hm => hm
    | cons f files ih =>
      intro merged hfiles hm
      obtain ⟨hf, hfiles⟩ := List.forall_mem_cons.1 hfiles
      exact ih hfiles (hadd hm hf)
  exact hall h (by simp)

/-- A file goes behind the others as it is, where none of them has its path. -/
theorem mem_mergeFiles {files : List File} {f : File} (h : ∀ g ∈ files, g.path ≠ f.path) :
    f ∈ mergeFiles (files ++ [f]) := by
  have hpaths : ∀ g ∈ mergeFiles files, g.path ≠ f.path :=
    forall_mergeFiles (fun _ _ _ hg => hg) h
  have hnone : ¬ (mergeFiles files).any (·.path == f.path) = true := by
    simpa [List.any_eq_true] using hpaths
  rw [mergeFiles] at hnone ⊢
  rw [List.foldl_append, List.foldl_cons, List.foldl_nil, addFile, if_neg hnone]
  simp

/-- The rules for the paths of all files but that of the exceptions, each with its subject. -/
def pathRules (tests : Tests.Tree) (code : Code.Tree) : List (String × String) :=
  let rules := Profile.builtin.paths
  tests.suites.map (fun s => (rules.testFile, s.subject)) ++
    tests.tables.map (fun t => (rules.decisionTableFile, t.participant)) ++
    code.classes.map (fun c => (rules.implementationFile, c.subject)) ++
    code.interfaces.map (fun i => (rules.interfaceFile, i.name)) ++
    code.scaffolds.map (fun s => (rules.scaffoldFile, s.name))

section

variable {tests : Tests.Tree} {code : Code.Tree} {base : String} {files : List File}
  (hbase : ∀ c ∈ base.toList, Text.isBlank c = false)
  (hg : ∀ g ∈ tests.groups, Name.IsWord g.name ∧ g.name ≠ "")
  (he : Code.exceptions tests.groups = code.exceptions)
  (h : render tests code .builtin base = .ok files)
include hbase hg he h

open Renderer in
/-- The files of the suites, the tables and the code, and the file of the exceptions. -/
theorem parts_render : ∃ (r : Renderer) (others : List File) (errors : File),
    r = { profile := .builtin, base, blocks := blocksInTree code } ∧
      files = mergeFiles (others ++ [errors]) ∧ r.errorsFile code.exceptions = .ok errors ∧
      ∀ f ∈ others, (∃ y ∈ pathRules tests code, r.path y.1 y.2 = .ok f.path) ∧
        ∀ b ∈ f.blocks, Laid code.exceptions b := by
  simp only [render, bind_ok, pure_ok] at h
  obtain ⟨suites, hsuites, tables, htables, classes, hclasses, interfaces, hinterfaces, scaffolds,
    hscaffolds, errors, herrors, rfl⟩ := h
  refine ⟨_, _, errors, rfl, rfl, herrors, ?_⟩
  simp only [List.forall_mem_append]
  refine ⟨⟨⟨⟨fun f hf => ?_, fun f hf => ?_⟩, fun f hf => ?_⟩, fun f hf => ?_⟩, fun f hf => ?_⟩
  · obtain ⟨s, hs, hsf⟩ := forall₂_right (mapM_ok.1 hsuites) f hf
    have hgroups : ∀ g ∈ s.groups, g ∈ tests.groups := fun g hg =>
      List.mem_flatMap.2 ⟨s, hs, hg⟩
    have hexceptions : Code.exceptions s.groups ⊆ code.exceptions := fun e hes => by
      obtain ⟨g, hgs, hge⟩ := List.mem_flatMap.1 (List.mem_eraseDups.1 hes)
      exact he ▸ List.mem_eraseDups.2 (List.mem_flatMap.2 ⟨g, hgroups g hgs, hge⟩)
    obtain ⟨hpath, hlaid⟩ :=
      laid_testFile rfl hbase (fun g hgs => hg g (hgroups g hgs)) hexceptions hsf
    exact ⟨⟨_, by simpa [pathRules] using .inl ⟨s, hs, rfl⟩, hpath⟩, hlaid⟩
  · obtain ⟨t, ht, htf⟩ := forall₂_right (mapM_ok.1 htables) f hf
    obtain ⟨hpath, hlaid⟩ := laid_decisionFile rfl htf
    exact ⟨⟨_, by simpa [pathRules] using .inr (.inl ⟨t, ht, rfl⟩), hpath⟩, hlaid⟩
  · obtain ⟨c, hc, hcf⟩ := forall₂_right (mapM_ok.1 hclasses) f hf
    obtain ⟨hpath, hlaid⟩ := laid_classFile rfl hcf
    exact ⟨⟨_, by simpa [pathRules] using .inr (.inr (.inl ⟨c, hc, rfl⟩)), hpath⟩, hlaid⟩
  · obtain ⟨i, hi, hif⟩ := forall₂_right (mapM_ok.1 hinterfaces) f hf
    obtain ⟨hpath, hlaid⟩ := laid_interfaceFile rfl hif
    exact ⟨⟨_, by simpa [pathRules] using .inr (.inr (.inr (.inl ⟨i, hi, rfl⟩))), hpath⟩, hlaid⟩
  · obtain ⟨s, hs, hsf⟩ := forall₂_right (mapM_ok.1 hscaffolds) f hf
    obtain ⟨hpath, hlaid⟩ := laid_scaffoldFile rfl hsf
    exact ⟨⟨_, by simpa [pathRules] using .inr (.inr (.inr (.inr ⟨s, hs, rfl⟩))), hpath⟩, hlaid⟩

/-- **Every block of every file** is written as whole lines, among them the one that declares it. -/
theorem laid_render : ∀ f ∈ files, ∀ b ∈ f.blocks, Laid code.exceptions b := by
  obtain ⟨r, others, errors, rfl, rfl, herrors, hothers⟩ := parts_render hbase hg he h
  refine forall_mergeFiles (fun f g hf hg b hb => ?_) ?_
  · rcases mem_foldl_new hb with hb | hb
    · exact hg b hb
    · obtain ⟨b', hb', rfl⟩ := List.mem_map.1 hb
      exact (hf b' hb').merged f.role
  · rw [List.forall_mem_append, List.forall_mem_singleton]
    exact ⟨fun f hf => (hothers f hf).2, (Renderer.laid_errorsFile rfl herrors).2⟩

end

end Source

end Lifeline
