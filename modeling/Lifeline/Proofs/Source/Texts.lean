import Lifeline.Proofs.Pattern.Lasting
import Lifeline.Proofs.Source.Rendering

/-!
# Texts of whole lines

What files are written with are lines (`Lines`): every template for a line ends with a line feed
(`TemplateKey.ends_line`), so all texts that are put together from them do. There is one lemma for
each function that writes lines, down to the text of a group (`lines_groupText`) and the body of a
method (`lines_bodyText`).
-/

set_option autoImplicit false

namespace Lifeline

open Text (Whole)

/-! ## Templates for lines -/

namespace TemplateKey

/-- The pieces of a built-in template. -/
def pieces (key : TemplateKey) : List Template.Piece :=
  Template.pieces key.builtin.toList.length key.builtin.toList

/-- Whether a built-in template writes lines, whatever is in its slots. -/
def endsLine : TemplateKey → Bool
  | .verifyOnce | .verifyAny | .valueRef | .literalTrue | .literalFalse | .literalNull
  | .keywordArgument | .throwTest | .classHeader | .binding | .raiseMessage | .exceptionRef
  | .predicateCondition | .iterationSource | .indent => false
  | _ => true

theorem ends_line {key : TemplateKey} (h : key.endsLine = true) :
    key.pieces.getLast? = some (.char '\n') := by
  unfold pieces
  cases key
  all_goals
    first
    | cases h; done
    | dsimp only [builtin, Template.slotText]
      -- The kernel is slow to decode a text, so it gets the characters.
      repeat rw [String.toList_append]
      repeat rw [String.toList_ofList]
      decide +kernel

/-- The header of a class ends with the assignments, behind whole lines. -/
theorem classHeader_pieces : ∃ ps, classHeader.pieces =
    ps ++ [.char '\n', .slot { name := "assignments".toList }] := by
  refine ⟨classHeader.pieces.dropLast.dropLast, ?_⟩
  unfold pieces
  dsimp only [builtin, Template.slotText]
  repeat rw [String.toList_append]
  repeat rw [String.toList_ofList]
  decide

/-- The test of a raise ends with the check of its message, behind whole lines. -/
theorem throwTest_pieces : ∃ ps, throwTest.pieces =
    ps ++ [.char '\n', .slot { name := "message_check".toList }] := by
  refine ⟨throwTest.pieces.dropLast.dropLast, ?_⟩
  unfold pieces
  dsimp only [builtin, Template.slotText]
  repeat rw [String.toList_append]
  repeat rw [String.toList_ofList]
  decide +kernel

end TemplateKey

/-! ## Lines -/

namespace Source

/-- What is written are whole lines. -/
def Lines (w : Writing String) : Prop := ∀ text, w = .ok text → Whole text.toList

theorem lines_ok {text : String} (h : Whole text.toList) : Lines (.ok text) := by
  rintro _ ⟨⟩
  exact h

theorem lines_empty : Lines (.ok "") := lines_ok Text.whole_nil

theorem Lines.bind {α : Type} {x : Writing α} {f : α → Writing String}
    (h : ∀ a, x = .ok a → Lines (f a)) : Lines (x >>= f) := fun text ht => by
  obtain ⟨a, ha, ht⟩ := bind_ok.1 ht
  exact h a ha text ht

theorem whole_append {a b : String} (ha : Whole a.toList) (hb : Whole b.toList) :
    Whole (a ++ b).toList := by
  rw [String.toList_append]
  exact ha.append hb

/-- Lines one after the other. -/
theorem Lines.append {x y : Writing String} (hx : Lines x) (hy : Lines y) :
    Lines (do return (← x) ++ (← y)) :=
  .bind fun _ ha => .bind fun _ hb => lines_ok (whole_append (hx _ ha) (hy _ hb))

theorem whole_concat {α : Type} {write : α → Writing String} {xs : List α} {pieces : List String}
    (h : ∀ x ∈ xs, Lines (write x)) (hp : xs.mapM write = .ok pieces) :
    Whole (Renderer.concat pieces).toList := by
  induction xs generalizing pieces with
  | nil =>
    obtain rfl := pure_ok.1 hp
    exact Text.whole_nil
  | cons x xs ih =>
    obtain ⟨hx, hxs⟩ := List.forall_mem_cons.1 h
    rw [List.mapM_cons, bind_ok] at hp
    obtain ⟨piece, hpiece, hp⟩ := hp
    obtain ⟨others, hothers, hp⟩ := bind_ok.1 hp
    obtain rfl := pure_ok.1 hp
    rw [Renderer.concat, String.join_cons]
    exact whole_append (hx _ hpiece) (ih hxs hothers)

namespace Renderer

open Code (BranchHead LoopHead Statement)
open Tests (Case Group Stub Suite)

variable {r : Renderer} (hr : r.profile = .builtin)
include hr

/-! ## Templates -/

/-- A built-in template with a value for each of its slots. -/
theorem fill_text {key : TemplateKey} {values : Template.Values} {text : String}
    (hv : values.map (·.1) = key.slots) (h : r.fill key values = .ok text) :
    text.toList = key.pieces.flatMap (·.filled values) := by
  have hkey : r.profile.templates.get key = key.builtin := by rw [hr]; rfl
  rw [fill, hkey, Template.fill_plain key.slots (fun _ h => hv ▸ h) (isPlain_builtin key)] at h
  obtain rfl := Except.ok.inj h
  exact String.toList_ofList

theorem lines_fill {key : TemplateKey} {values : Template.Values}
    (hv : values.map (·.1) = key.slots) (hk : key.endsLine = true) :
    Lines (r.fill key values) := fun text h => by
  obtain ⟨ps, hps⟩ := List.getLast?_eq_some_iff.1 (TemplateKey.ends_line hk)
  rw [fill_text hr hv h, hps]
  intro c hc
  simpa [Template.Piece.filled, eq_comm] using hc

/-- A template that ends with a slot for lines, behind whole lines. -/
theorem whole_fill {key : TemplateKey} {values : Template.Values} {text name : String}
    {ps : List Template.Piece} (hv : values.map (·.1) = key.slots)
    (hps : key.pieces = ps ++ [.char '\n', .slot { name := name.toList }])
    (hw : Whole ((values.lookup name).getD "").toList) (h : r.fill key values = .ok text) :
    Whole text.toList := by
  have hlast : Template.Piece.filled values (.slot { name := name.toList }) =
      ((values.lookup name).getD "").toList := by
    rw [Template.Piece.filled, String.ofList_toList]
  have hline : Whole (ps.flatMap (·.filled values) ++ ['\n']) := fun c hc => by
    simpa [eq_comm] using hc
  rw [fill_text hr hv h, hps]
  simpa [Template.Piece.filled, hlast] using hline.append hw

theorem lines_fill1 {key : TemplateKey} {name value : String} (hv : [name] = key.slots)
    (hk : key.endsLine = true) : Lines (r.fill1 key name value) :=
  lines_fill hr hv hk

/-! ## Statements -/

theorem lines_orEmptyBody {level : Nat} {text : String} (h : Whole text.toList) :
    Lines (r.orEmptyBody level text) := by
  unfold orEmptyBody
  split
  · exact lines_fill1 hr rfl rfl
  · exact lines_ok h

theorem lines_branchHead (level : Nat) (first : Bool) (head : BranchHead) :
    Lines (r.branchHead level first head) := by
  have hdecide : ∀ condition, Lines (r.fill (if first then .conditionalIf else .conditionalElif)
      [("indent", r.indent level), ("condition", condition)]) := fun condition => by
    cases first <;> exact lines_fill hr rfl rfl
  unfold branchHead
  dsimp only
  split
  · exact lines_fill1 hr rfl rfl
  · split
    · exact .bind fun _ _ => hdecide _
    · exact hdecide _
  · exact .bind fun _ _ => hdecide _

theorem lines_loopHead (level : Nat) (head : LoopHead) : Lines (r.loopHead level head) := by
  unfold loopHead
  dsimp only
  split <;> exact .bind fun _ _ => lines_fill hr rfl rfl

theorem lines_callText (level : Nat) (s : Code.CallStatement) : Lines (r.callText level s) := by
  unfold callText
  dsimp only
  split <;> exact .bind fun _ _ => .bind fun _ _ => lines_fill hr rfl rfl

theorem lines_raiseText (level : Nat) (s : Code.RaiseStatement) : Lines (r.raiseText level s) := by
  unfold raiseText
  dsimp only
  split
  · exact .bind fun _ _ => .bind fun _ _ => .bind fun _ _ => lines_fill hr rfl rfl
  · exact .bind fun _ _ => .bind fun _ _ => lines_fill hr rfl rfl

omit hr

mutual

theorem lines_statementText (hr : r.profile = .builtin) (level : Nat) : ∀ s : Statement,
    Lines (statementText r level s)
  | .call s => by
    rw [statementText]
    exact lines_callText hr level s
  | .return s => by
    rw [statementText]
    exact .bind fun _ _ => lines_fill hr rfl rfl
  | .raise s => by
    rw [statementText]
    exact lines_raiseText hr level s
  | .conditional _ branches _ => by
    rw [statementText]
    exact lines_branchesText hr level true branches
  | .iteration head body => by
    rw [statementText]
    refine .bind fun top htop => .bind fun inner hinner => .bind fun filled hfilled => lines_ok ?_
    have hbody := lines_bodyText hr (level + 1) body _ hinner
    exact whole_append (lines_loopHead hr level head _ htop)
      (lines_orEmptyBody hr hbody _ hfilled)

theorem lines_bodyText (hr : r.profile = .builtin) (level : Nat) : ∀ body : List Statement,
    Lines (bodyText r level body)
  | [] => by
    rw [bodyText]
    exact lines_empty
  | s :: rest => by
    rw [bodyText]
    exact (lines_statementText hr level s).append (lines_bodyText hr level rest)

theorem lines_branchesText (hr : r.profile = .builtin) (level : Nat) (first : Bool) :
    ∀ branches : List (BranchHead × List Statement), Lines (branchesText r level first branches)
  | [] => by
    rw [branchesText]
    exact lines_empty
  | (head, body) :: rest => by
    rw [branchesText]
    refine .bind fun top htop => .bind fun inner hinner => .bind fun filled hfilled =>
      .bind fun others hothers => lines_ok ?_
    have hbody := lines_bodyText hr (level + 1) body _ hinner
    refine whole_append (whole_append (lines_branchHead hr level first head _ htop) ?_) ?_
    · exact lines_orEmptyBody hr hbody _ hfilled
    · exact lines_branchesText hr level false rest _ hothers

end

/-! ## Setups -/

include hr

theorem lines_fixtures : ∀ (names defined : List String) (x : String × List String),
    r.fixtures defined names = .ok x → Whole x.1.toList
  | [], _, _, h => by
    obtain rfl := Except.ok.inj h
    exact Text.whole_nil
  | name :: rest, defined, x, h => by
    rw [fixtures] at h
    split at h
    · exact lines_fixtures rest defined x h
    · simp only [bind_ok, pure_ok] at h
      obtain ⟨first, hfirst, others, hothers, rfl⟩ := h
      have hline : Lines (r.fill1 .fixtureValue "name" name) := lines_fill1 hr rfl rfl
      exact whole_append (hline _ hfirst) (lines_fixtures rest _ _ hothers)

theorem lines_loopFixtures (g : Group) : ∀ (loops : List Tests.LoopFixture) (defined : List String)
    (x : String × List String), r.loopFixtures g defined loops = .ok x → Whole x.1.toList
  | [], _, _, h => by
    obtain rfl := Except.ok.inj h
    exact Text.whole_nil
  | l :: rest, defined, x, h => by
    rw [loopFixtures] at h
    split at h
    · simp only [bind_ok, pure_ok] at h
      obtain ⟨own, hown, filled, hfilled, others, hothers, rfl⟩ := h
      have hheld : Whole filled.toList := lines_fill hr rfl rfl _ hfilled
      exact whole_append (whole_append (lines_fixtures hr _ _ _ hown) hheld)
        (lines_loopFixtures g rest _ _ hothers)
    · exact lines_loopFixtures g rest defined x h

theorem lines_guardFixture (g : Group) (elements parameters : List String) (branch : BranchHead)
    (taken : Int) : Lines (r.guardFixture g elements parameters branch taken) := by
  unfold guardFixture
  dsimp only
  split
  · exact lines_empty
  split
  · exact lines_empty
  · exact .bind fun _ _ => lines_fill hr rfl rfl

theorem lines_guardFixtures (g : Group) (parameters : List String) :
    Lines (r.guardFixtures g parameters) :=
  .bind fun _ hlines => lines_ok (whole_concat (fun b _ =>
    lines_guardFixture hr g _ parameters b.1 b.2) hlines)

theorem lines_stubLines (g : Group) : ∀ (stubs : List Stub) (sequenced : List (String × String)),
    Lines (r.stubLines g sequenced stubs)
  | [], _ => lines_empty
  | s :: rest, sequenced => by
    have hrest : ∀ {before : String} (sequenced : List (String × String)), Whole before.toList →
        Lines (do return before ++ (← r.stubLines g sequenced rest)) := fun sequenced hb =>
      .bind fun _ ho => lines_ok (whole_append hb (lines_stubLines g rest sequenced _ ho))
    have hline : ∀ {note : String} {line : Writing String} (sequenced : List (String × String)),
        Whole note.toList → Lines line →
          Lines (do return note ++ (← line) ++ (← r.stubLines g sequenced rest)) :=
      fun sequenced hn hl => .bind fun _ h => hrest sequenced (whole_append hn (hl _ h))
    rw [stubLines]
    dsimp only
    split
    case' h_1 => refine .bind fun note hnote => ?_
    case' h_2 => refine .bind fun note hnote => ?_
    case' h_1 => have hn : Whole note.toList := lines_fill1 hr rfl rfl _ hnote
    case' h_2 => have hn : Whole note.toList := lines_empty _ hnote
    -- With or without a note, what follows it is the same.
    all_goals
      split
      · exact hline _ hn (lines_fill hr rfl rfl)
      · exact hrest _ hn
      · split
        · exact hline _ hn (lines_fill hr rfl rfl)
        · split
          · exact hrest _ hn
          · exact .bind fun _ _ => hline _ hn (lines_fill hr rfl rfl)

theorem lines_helperStubs (g : Group) : Lines (r.helperStubs g) := by
  unfold helperStubs
  refine .bind fun predicates hpredicates => .bind fun sources hsources => lines_ok ?_
  refine whole_append (whole_concat (fun b _ => ?_) hpredicates)
    (whole_concat (fun l _ => .bind fun _ _ => lines_fill hr rfl rfl) hsources)
  dsimp only
  split
  · split
    · exact lines_empty
    · exact .bind fun _ _ => lines_fill hr rfl rfl
  · exact lines_empty

/-! ## Tests -/

theorem lines_testCase (s : Suite) (method arguments : String) (g : Group) (c : Case) :
    Lines (r.testCase s method arguments g c) := by
  unfold testCase
  split
  · dsimp only
    split <;> exact .bind fun _ _ => .bind fun _ _ => .bind fun _ _ => lines_fill hr rfl rfl
  · exact .bind fun _ _ => lines_fill hr rfl rfl
  · rename_i check _
    have htest : ∀ {message : String}, Whole message.toList → Lines (r.fill .throwTest
        [("test", c.name), ("exception", check.exception), ("method", method),
          ("arguments", arguments), ("message_check", message)]) := fun hm _ ht =>
      have ⟨_, hps⟩ := TemplateKey.throwTest_pieces
      whole_fill hr rfl hps (by simpa [List.lookup_cons] using hm) ht
    dsimp only
    split
    · exact .bind fun _ _ => .bind fun _ _ => .bind fun message hmessage =>
        htest (lines_fill hr rfl rfl message hmessage)
    · exact .bind fun _ hmessage => htest (lines_empty _ hmessage)

/-- The text of a group is lines. -/
theorem lines_groupText (s : Suite) (method : String) (parameters : List String) (g : Group) :
    Lines (r.groupText s method parameters g) := by
  unfold groupText
  refine .bind fun header hheader => .bind fun mocks hmocks => .bind fun own hown =>
    .bind fun values hvalues => .bind fun loops hloops => .bind fun elements helements =>
    .bind fun guards hguards => .bind fun stubs hstubs => .bind fun _ _ => .bind fun _ _ =>
    .bind fun construction hconstruction => .bind fun helpers hhelpers => .bind fun _ _ => ?_
  have hsetup : Whole (header ++ Renderer.concat mocks ++ own.1 ++ values.1 ++ loops.1 ++
      elements.1 ++ guards ++ stubs ++ construction ++ helpers).toList := by
    refine whole_append (whole_append (whole_append (whole_append (whole_append (whole_append
      (whole_append (whole_append (whole_append ?_ ?_) ?_) ?_) ?_) ?_) ?_) ?_) ?_) ?_
    · exact lines_fill hr rfl rfl _ hheader
    · exact whole_concat (fun _ _ => lines_fill1 hr rfl rfl) hmocks
    · exact lines_fixtures hr _ _ _ hown
    · exact lines_fixtures hr _ _ _ hvalues
    · exact lines_loopFixtures hr g _ _ _ hloops
    · exact lines_fixtures hr _ _ _ helements
    · exact lines_guardFixtures hr g parameters _ hguards
    · exact lines_stubLines hr g _ _ _ hstubs
    · exact lines_fill hr rfl rfl _ hconstruction
    · exact lines_helperStubs hr g _ hhelpers
  dsimp only
  split
  case' isTrue => refine .bind fun invoke hinvoke => .bind fun cases hcases => lines_ok ?_
  case' isFalse => refine .bind fun invoke hinvoke => .bind fun cases hcases => lines_ok ?_
  case' isTrue => have hi : Whole invoke.toList := lines_fill hr rfl rfl _ hinvoke
  case' isFalse => have hi : Whole invoke.toList := lines_empty _ hinvoke
  all_goals
    exact whole_append (whole_append hsetup hi)
      (whole_concat (fun c _ => lines_testCase hr s method _ g c) hcases)

end Renderer

end Source

end Lifeline
