import Lifeline.Proofs.Code.Declared
import Lifeline.Proofs.Plan.Settled
import Lifeline.Proofs.Source.Rendering
import Lifeline.Proofs.Source.Standing

/-!
# Generated files that are there

Every block of a generated file stands in the content of the file, but it may be `Lost` there: its
pattern asks for the edge of a word behind a name that does not end with a word. All other blocks
are recognised (`Source.isDeclared_content`), so a second run finds nothing to do where no block is
lost (`recognised_iff_of_render`). Lost are the types of participants that have no letters or digits
in their names, which get empty names, and exceptions whose name ends with a point.
-/

set_option autoImplicit false

namespace Lifeline

/-! ## Names -/

theorem Label.Dotted.last {name : String} (h : Label.Dotted name)
    (hlast : name.toList.getLast?.any Text.isWord = false) : name.toList.getLast? = some '.' := by
  have hne : name.toList ≠ [] := fun hnil => h.ne_empty (String.toList_eq_nil_iff.1 hnil)
  obtain ⟨cs, c, hc⟩ := (List.eq_nil_or_concat' name.toList).resolve_left hne
  have hpart := h.parts c (by simp [hc])
  rw [hc, List.getLast?_concat] at hlast ⊢
  rw [Label.isDotted, show Text.isWord c = false from hlast, Bool.false_or] at hpart
  rw [beq_iff_eq.1 hpart]

namespace Plan

open Source (Block File Laid Spelled)

/-- A block that is not recognised where it stands: the pattern asks for the edge of a word behind
the name, where the name does not end with a word, and no line goes on behind the name. -/
def Lost (b : Block) (text : String) : Prop := ∃ kind, b.kind = .declaration kind ∧
  kind.endsWord = true ∧ b.name.toList.getLast?.any Text.isWord = false ∧ ¬ GoesOn kind b.name text

section

variable {exceptions : List String} (he : ∀ e ∈ exceptions, Label.Dotted e) {kind : DeclarationKind}
  {name : String}
include he

theorem head_of_spelled (h : Spelled exceptions kind name) :
    ∀ c ∈ name.toList.head?, Text.isWord c = true := by
  rcases h with ⟨hword, -⟩ | hmem
  · exact hword.head
  · have hbegins := (he name hmem).begins
    intro c hc
    rw [Option.mem_def.1 hc] at hbegins
    exact hbegins

/-- A name that does not end with a word. -/
theorem name_of_spelled (h : Spelled exceptions kind name)
    (hlast : name.toList.getLast?.any Text.isWord = false) :
    (name = "" ∧ kind ≠ .group) ∨ (name ∈ exceptions ∧ name.toList.getLast? = some '.') := by
  rcases h with ⟨hword, hgroup⟩ | hmem
  · have hempty : name = "" := by
      by_contra hne
      rw [hword.last hne] at hlast
      cases hlast
    exact .inl ⟨hempty, fun hk => hgroup hk hempty⟩
  · exact .inr ⟨hmem, (he name hmem).last hlast⟩

variable {f : File} (hf : ∀ b ∈ f.blocks, Laid exceptions b) {b : Block} (hb : b ∈ f.blocks)
include hf hb

omit he in
theorem within_content : Text.Within b.text.toList f.content.toList := by
  rw [File.content, foldl_text_toList]
  exact within_blocks (fun x hx => (hf x hx).whole) Text.whole_nil hb

/-- **A block is recognised** in its file unless it is lost there. -/
theorem isDeclared_content : isDeclared {} b f.content = .ok true ↔ ¬ Lost b f.content := by
  have hwithin := within_content hf hb
  cases hk : b.kind with
  | declaration kind =>
    have hstands : Stands kind b.name f.content := ((hf b hb).stands kind hk).within hwithin
    rw [isDeclared_iff_found hk, hstands.found_iff fun hw =>
      head_of_spelled he ((hf b hb).spelled kind hk hw)]
    have hlost : Lost b f.content ↔
        ¬ (kind.endsWord = true → b.name.toList.getLast?.any Text.isWord = true) ∧
          ¬ GoesOn kind b.name f.content := by
      simp [Lost, hk, and_assoc]
    rw [hlost, ← not_or, not_not]
  | header | preamble | other =>
    refine iff_of_true ?_ fun ⟨kind, hkind, _⟩ => by rw [hk] at hkind; cases hkind
    obtain ⟨before, after, hcontent, -, -⟩ := hwithin
    simp only [isDeclared, hk, Text.Packed.occursIn, hcontent, occursIn_iff_infix, Except.ok.injEq]
    exact List.infix_append' before b.text.toList after

omit he in
/-- An interface is there as an abstract type. -/
theorem abstract_content (ha : b.isAbstract = true) : Found .abstractType b.name f.content := by
  have hk := (hf b hb).abstract ha
  exact (((hf b hb).stands _ hk).within (within_content hf hb)).abstractType.found rfl

end

/-! ## Running again -/

/-- **What a second run plans** for files that are there as they were written: nothing, where no
block is lost. -/
theorem ofFiles_content {exceptions : List String} (he : ∀ e ∈ exceptions, Label.Dotted e)
    {files : List File} (hf : ∀ f ∈ files, ∀ b ∈ f.blocks, Laid exceptions b) {σ : Type}
    {store : Store σ} {x : σ} (hstore : ∀ f ∈ files,
      store.isFile x f.path = .ok true ∧ store.read x f.path = .ok f.content) :
    ∃ plan, ofFiles store x {} files = .ok plan ∧
      (plan.operations = [] ↔ ∀ f ∈ files, ∀ b ∈ f.blocks, ¬ Lost b f.content) := by
  have hplan : ∀ f ∈ files, ∃ p, planFile store x {} f = .ok p ∧ p.conflicts = [] ∧
      (p.operation = none ↔ ∀ b ∈ f.blocks, ¬ Lost b f.content) := fun f hfm => by
    obtain ⟨p, hp, -, hc, ho⟩ := exists_extendFile fun b hb => abstract_content (hf f hfm) hb
    obtain ⟨hfile, hread⟩ := hstore f hfm
    refine ⟨p, by rw [planFile, hfile]; simpa [hread] using hp, hc, ho.trans ?_⟩
    refine forall₂_congr fun b hb => ?_
    rw [← isDeclared_content he (hf f hfm) hb]
    refine ⟨fun h => ?_, fun h _ => h⟩
    by_cases hk : b.kind = .header
    · refine (isDeclared_content he (hf f hfm) hb).2 ?_
      rintro ⟨kind, hkind, -⟩
      rw [hk] at hkind
      cases hkind
    · exact h hk
  obtain ⟨plans, hplans⟩ : ∃ plans, files.mapM (planFile store x {}) = .ok plans :=
    exists_ok (failsOnly_mapM fun f hfm => failsOnly_of_exists ((hplan f hfm).imp fun _ h => h.1))
  have hall := mapM_ok.1 hplans
  have hp : ∀ p ∈ plans, p.conflicts = [] := fun p hpm => by
    obtain ⟨f, hfm, hfp⟩ := forall₂_right hall p hpm
    obtain ⟨p', hp', hc, -⟩ := hplan f hfm
    rwa [Except.ok.inj (hfp.symm.trans hp')]
  obtain ⟨plan, hplan'⟩ := exists_ofFilePlans hp
  refine ⟨plan, bind_ok.2 ⟨plans, hplans, hplan'⟩, ?_⟩
  rw [(ofFilePlans_ok hplan').2, List.filterMap_eq_nil_iff]
  constructor
  · intro h f hfm
    obtain ⟨p, hpm, hfp⟩ := forall₂_left hall f hfm
    obtain ⟨p', hp', -, ho⟩ := hplan f hfm
    obtain rfl := Except.ok.inj (hfp.symm.trans hp')
    exact ho.1 (h p hpm)
  · intro h p hpm
    obtain ⟨f, hfm, hfp⟩ := forall₂_right hall p hpm
    obtain ⟨p', hp', -, ho⟩ := hplan f hfm
    obtain rfl := Except.ok.inj (hfp.symm.trans hp')
    exact ho.2 (h f hfm)

section

variable {source base : String} {d : Diagram} {o : Model.Options} {m : Model} {s : LeafSuffixes}
  {t : Tests.Tree} {code : Code.Tree} {files : List File} (hd : Diagram.parse source = .ok d)
  (hm : d.buildModel o = .ok m) (ht : m.synthesizeTests (m.classify s) = .ok t)
include hd hm ht

/-- All groups have names that are words. -/
theorem group_word {g : Tests.Group} (hg : g ∈ t.groups) : Name.IsWord g.name ∧ g.name ≠ "" := by
  have hsound := Model.sound_of_build (Diagram.sound_of_parse hd) hm
  obtain ⟨x, -, P, -, hgx⟩ := (Tests.treeOf_synthesis hsound ht).group_of_mem hg
  obtain ⟨method, qualifier, name, taken, hname, hgroup⟩ := hgx.named
  obtain ⟨hword, hne⟩ := NamingRules.testGroup_word hname
  rw [hgroup]
  exact ⟨Name.isWord_unique hword taken, Name.unique_ne_empty hne taken⟩

/-- **Generated files that are generated again.** In the files of a diagram a block is recognised
unless it is lost; only types without a name and exceptions whose name ends with a point are. Where
the files are there as they were written, a second run plans nothing if and only if no block is
lost. -/
theorem recognised_iff_of_render (hc : t.synthesizeCode = .ok code)
    (hbase : ∀ c ∈ base.toList, Text.isBlank c = false)
    (hr : Source.render t code .builtin base = .ok files) :
    (∀ f ∈ files, ∀ b ∈ f.blocks, (isDeclared {} b f.content = .ok true ↔ ¬ Lost b f.content) ∧
      (Lost b f.content →
        b.name = "" ∨ (b.name ∈ code.exceptions ∧ b.name.toList.getLast? = some '.'))) ∧
    ∀ {σ : Type} (store : Store σ) (x : σ),
      (∀ f ∈ files, store.isFile x f.path = .ok true ∧ store.read x f.path = .ok f.content) →
        ∃ plan, ofFiles store x {} files = .ok plan ∧
          (plan.operations = [] ↔ ∀ f ∈ files, ∀ b ∈ f.blocks, ¬ Lost b f.content) := by
  have hexceptions : code.exceptions = Code.exceptions t.groups := (Code.code_parts hc).2.2.2
  have he : ∀ e ∈ code.exceptions, Label.Dotted e := by
    rw [hexceptions]
    exact Code.dotted_of_synthesis hd hm ht
  have hf := Source.laid_render hbase (fun g hg => group_word hd hm ht hg) hexceptions.symm hr
  refine ⟨fun f hfm b hb => ⟨isDeclared_content he (hf f hfm) hb, ?_⟩, fun store x hstore =>
    ofFiles_content he hf hstore⟩
  rintro ⟨kind, hk, hw, hlast, -⟩
  exact (name_of_spelled he ((hf f hfm b hb).spelled kind hk hw) hlast).imp_left And.left

end

/-- A diagram with an exception whose name ends with a point. -/
def endsWithPoint : String := "[-> A : run(x)\nA -> B : load(x)\nA -> A : <<throws>> Missing.\n"

/-- What writes its files, but for the blocks of its code. -/
def writer : Source.Renderer := { profile := .builtin, base := "app" }

/-- No other file has the path of the exceptions. -/
theorem of?_endsWithPoint : ∃ x ∈ Stages.of? endsWithPoint, x.code.exceptions = ["Missing."] ∧
    ∀ y ∈ Source.pathRules x.tests x.code,
      (writer.path y.1 y.2).toOption ≠ some "src/app/errors.py" := by
  unfold endsWithPoint
  rw [Stages.of?_toList, String.toList_ofList]
  decide

/-- In the file of the exceptions there is a class that is not recognised. -/
theorem errorsFile_endsWithPoint : ∃ f ∈ (writer.errorsFile ["Missing."]).toOption,
    f.path = "src/app/errors.py" ∧
      ∃ b ∈ f.blocks, b.kind ≠ .header ∧ (isDeclared {} b f.content).toOption = some false := by
  decide

theorem recognised_iff_endsWithPoint : ∃ d m t code files, Diagram.parse endsWithPoint = .ok d ∧
    d.buildModel = .ok m ∧ m.synthesizeTests m.classify = .ok t ∧ t.synthesizeCode = .ok code ∧
      Source.render t code = .ok files ∧ code.exceptions = ["Missing."] ∧
    (∀ f ∈ files, ∀ b ∈ f.blocks, (isDeclared {} b f.content = .ok true ↔ ¬ Lost b f.content) ∧
      (Lost b f.content →
        b.name = "" ∨ (b.name ∈ code.exceptions ∧ b.name.toList.getLast? = some '.'))) ∧
    ∀ {σ : Type} (store : Store σ) (x : σ),
      (∀ f ∈ files, store.isFile x f.path = .ok true ∧ store.read x f.path = .ok f.content) →
        ∃ plan, ofFiles store x {} files = .ok plan ∧
          (plan.operations = [] ↔ ∀ f ∈ files, ∀ b ∈ f.blocks, ¬ Lost b f.content) := by
  obtain ⟨x, hx, hexceptions, -⟩ := of?_endsWithPoint
  obtain ⟨d, hd, hm, ht, hc⟩ := Stages.of?_eq_some hx
  obtain ⟨files, hr⟩ := Source.exists_render x.tests x.code "app"
  exact ⟨d, x.model, x.tests, x.code, files, hd, hm, ht, hc, hr, hexceptions,
    recognised_iff_of_render hd hm ht hc (Text.not_isBlank_of_all (by decide)) hr⟩

/-- The class of the exception is lost in the file of the exceptions. -/
theorem not_recognised_endsWithPoint : ¬ ∀ (source : String) (o : Model.Options) (d : Diagram)
    (m : Model) (t : Tests.Tree) (code : Code.Tree) (files : List File),
    Diagram.parse source = .ok d → d.buildModel o = .ok m →
      m.synthesizeTests m.classify = .ok t → t.synthesizeCode = .ok code →
        Source.render t code = .ok files →
          ∀ f ∈ files, ∀ b ∈ f.blocks, b.kind ≠ .header → isDeclared {} b f.content = .ok true := by
  intro h
  obtain ⟨x, hx, hexceptions, hpaths⟩ := of?_endsWithPoint
  obtain ⟨d, hd, hm, ht, hc⟩ := Stages.of?_eq_some hx
  obtain ⟨files, hr⟩ := Source.exists_render x.tests x.code "app"
  have hall := h _ _ d x.model x.tests x.code files hd hm ht hc hr
  obtain ⟨r, others, errors, rfl, rfl, herrors, hothers⟩ := Source.parts_render
    (Text.not_isBlank_of_all (by decide)) (fun g hg => group_word hd hm ht hg)
    (Code.code_parts hc).2.2.2.symm hr
  obtain ⟨f, hf, hpath, b, hb, hk, hnot⟩ := errorsFile_endsWithPoint
  -- neither the file of the exceptions nor a path depends on the blocks of the code
  have hwriter := Source.Renderer.errorsFile_blocks (r := writer) (Source.blocksInTree x.code)
  rw [hexceptions] at herrors
  obtain rfl : f = errors :=
    Except.ok.inj ((toOption_eq_some.1 hf).symm.trans ((hwriter _).symm.trans herrors))
  have hmem : f ∈ Source.mergeFiles (others ++ [f]) := by
    refine Source.mem_mergeFiles fun g hg hsame => ?_
    obtain ⟨⟨y, hy, hyg⟩, -⟩ := hothers g hg
    refine hpaths y hy (toOption_eq_some.2 ?_)
    rw [← hpath, ← hsame]
    exact (Source.Renderer.path_blocks (r := writer) _ _ _).symm.trans hyg
  rw [hall f hmem b hb hk] at hnot
  cases hnot

end Plan

end Lifeline
