import Lifeline.Proofs.Source.Driven
import Lifeline.Proofs.Source.Rendering
import Lifeline.Proofs.Tests.Holders

/-!
# Sequences of values

The lines of a setup that make mocks answer (`answersOf`, `stubLines_eq`). A method of a mock that
gives several values in a group gets all of them in one sequence, of which each call takes the next
one.

**`sequence_iff_of_synthesis`**: the values are those of the calls to the method that the group
reaches, in their order, and they line up with the calls exactly where each call has one. A call
without a reply has none, so that the calls behind it get values that were meant for others
(`not_sequence_voidBetween`).
-/

set_option autoImplicit false

namespace Lifeline.Source

open Tests (Context Group MethodTests Stub TreeOf)

/-! ## The lines that make mocks answer -/

/-- What a line says of a mock. -/
inductive Answer where
  | note (guard : String)
  | raises (mock method exception : String)
  | value (mock method holder : String)
  | sequence (mock method : String) (holders : List String)
deriving Repr, DecidableEq

/-- The method that a sequence is for. -/
def Answer.sequenced? : Answer → Option (String × String)
  | .sequence mock method _ => some (mock, method)
  | _ => none

/-- The note on the guard that the value of a stub decides. -/
def noteOf (s : Stub) : List Answer := ((s.guard.filter (!·.isEmpty)).map .note).toList

/-- The answer of the method of a stub. -/
def answer? (g : Group) (s : Stub) : Option Answer :=
  match s.raises.filter (!·.isEmpty), s.holder.filter (!·.isEmpty) with
  | some exception, _ => some (.raises s.mock s.method exception)
  | none, none => none
  | none, some holder =>
    match Renderer.holdersOf g s with
    | [_] => some (.value s.mock s.method holder)
    | holders => some (.sequence s.mock s.method holders)

/-- The answers for stubs of a group, in order. A sequence stands at the first stub of its
method. -/
def answersOf (g : Group) (sequenced : List (String × String)) : List Stub → List Answer
  | [] => []
  | s :: rest =>
    noteOf s ++
      match answer? g s with
      | none => answersOf g sequenced rest
      | some a =>
        match a.sequenced? with
        | none => a :: answersOf g sequenced rest
        | some key =>
          if sequenced.contains key then answersOf g sequenced rest
          else a :: answersOf g (sequenced ++ [key]) rest

/-- A line as it is written. -/
def Renderer.answerText (r : Renderer) : Answer → Writing String
  | .note guard => r.fill1 .stubGuardNote "guard" (.ofList (Text.join [' ']
      (Text.runs (!Text.isBlank ·) guard.toList)))
  | .raises mock method exception => r.fill .stubRaises
      [("mock", mock), ("method", method), ("exception", exception)]
  | .value mock method holder => r.fill .stub
      [("mock", mock), ("method", method), ("value", holder)]
  | .sequence mock method holders => do
    let values ← holders.mapM r.held
    r.fill .stubSequence
      [("mock", mock), ("method", method), ("values", Text.Packed.join ", " values)]

namespace Renderer

variable {r : Renderer} {g : Group}

/-- To write one piece is to write a list with it alone. -/
theorem write_singleton {α : Type} (write : α → Writing String) (x : α) :
    concat <$> [x].mapM write = write x := by
  have hnil : concat [] = "" := rfl
  rw [write_cons]
  simp [hnil]

theorem note_eq (s : Stub) : concat <$> (noteOf s).mapM r.answerText =
    match s.guard.filter (!·.isEmpty) with
    | some guard => r.fill1 .stubGuardNote "guard" (.ofList (Text.join [' ']
        (Text.runs (!Text.isBlank ·) guard.toList)))
    | none => .ok "" := by
  unfold noteOf
  cases s.guard.filter (!·.isEmpty) with
  | none => rfl
  | some guard => exact write_singleton r.answerText (.note guard)

/-- **What a setup writes** to make mocks answer are its answers, in their order. -/
theorem stubLines_eq : ∀ (sequenced : List (String × String)) (ss : List Stub),
    r.stubLines g sequenced ss = concat <$> (answersOf g sequenced ss).mapM r.answerText
  | _, [] => rfl
  | sequenced, s :: rest => by
    rw [answersOf, write_append, note_eq, stubLines, answer?]
    -- the same lines follow, with and without a note
    cases s.guard.filter (!·.isEmpty) <;> refine bind_congr (m := Except NameError) fun note => ?_
    all_goals
      cases s.raises.filter (!·.isEmpty) with
      | some exception =>
        simp [Answer.sequenced?, concat_cons, answerText, stubLines_eq sequenced rest,
          String.append_assoc]
      | none =>
        cases s.holder.filter (!·.isEmpty) with
        | none => simp [stubLines_eq sequenced rest]
        | some holder =>
          dsimp only
          rcases holdersOf g s with _ | ⟨first, _ | ⟨second, others⟩⟩
          case cons.nil =>
            simp [Answer.sequenced?, concat_cons, answerText, stubLines_eq sequenced rest,
              String.append_assoc]
          all_goals
            dsimp only [Answer.sequenced?]
            split
            · simp [stubLines_eq sequenced rest]
            · simp [concat_cons, answerText, stubLines_eq (sequenced ++ [(s.mock, s.method)]) rest,
                String.append_assoc]

end Renderer

/-! ## The sequences of a group -/

section

variable {g : Group}

/-- The lines that make mocks answer are notes on stubs and answers of their methods. -/
theorem mem_answersOf {a : Answer} : ∀ {sequenced : List (String × String)} {ss : List Stub},
    a ∈ answersOf g sequenced ss → ∃ s ∈ ss, a ∈ noteOf s ∨ answer? g s = some a
  | _, [], h => by simp [answersOf] at h
  | sequenced, s :: rest, h => by
    have hrest : ∀ {sequenced}, a ∈ answersOf g sequenced rest →
        ∃ s' ∈ s :: rest, a ∈ noteOf s' ∨ answer? g s' = some a := fun h =>
      (mem_answersOf h).imp fun s' hs' => ⟨.tail _ hs'.1, hs'.2⟩
    rw [answersOf, List.mem_append] at h
    rcases h with h | h
    · exact ⟨s, .head _, .inl h⟩
    · split at h
      · exact hrest h
      · rename_i b hb
        have hfirst : ∀ {sequenced}, a ∈ b :: answersOf g sequenced rest →
            ∃ s' ∈ s :: rest, a ∈ noteOf s' ∨ answer? g s' = some a := fun h =>
          (List.mem_cons.1 h).elim (fun he => ⟨s, .head _, .inr (he ▸ hb)⟩) hrest
        split at h
        · exact hfirst h
        · split at h
          · exact hrest h
          · exact hfirst h

/-- A sequence is for the method of a stub, and has the names that hold what the method gives. -/
theorem exists_stub_of_sequence {mock method : String} {holders : List String}
    {sequenced : List (String × String)} {ss : List Stub}
    (h : .sequence mock method holders ∈ answersOf g sequenced ss) :
    ∃ s ∈ ss, s.mock = mock ∧ s.method = method ∧ holders = Renderer.holdersOf g s := by
  obtain ⟨s, hs, h | h⟩ := mem_answersOf h
  · simp [noteOf] at h
  · refine ⟨s, hs, ?_⟩
    unfold answer? at h
    split at h
    · cases h
    · cases h
    · split at h <;> cases h
      exact ⟨rfl, rfl, rfl⟩

/-- No method of a mock has two sequences. -/
theorem nodup_sequenced : ∀ (sequenced : List (String × String)) (ss : List Stub),
    ((answersOf g sequenced ss).filterMap Answer.sequenced?).Nodup ∧
      ∀ key ∈ (answersOf g sequenced ss).filterMap Answer.sequenced?, key ∉ sequenced
  | sequenced, [] => by simp [answersOf]
  | sequenced, s :: rest => by
    have hnote : (noteOf s).filterMap Answer.sequenced? = [] := by
      unfold noteOf
      cases s.guard.filter (!·.isEmpty) <;> rfl
    rw [answersOf, List.filterMap_append, hnote, List.nil_append]
    split
    · exact nodup_sequenced sequenced rest
    · split
      · rename_i hnone
        rw [List.filterMap_cons_none hnone]
        exact nodup_sequenced sequenced rest
      · rename_i key hkey
        split
        · exact nodup_sequenced sequenced rest
        · rename_i hnew
          obtain ⟨hnodup, hfresh⟩ := nodup_sequenced (sequenced ++ [key]) rest
          rw [List.filterMap_cons_some hkey]
          refine ⟨List.nodup_cons.2 ⟨fun hmem => hfresh key hmem (by simp), hnodup⟩, ?_⟩
          rintro k (_ | ⟨_, hk⟩)
          · simpa using hnew
          · exact fun hold => hfresh k hk (List.mem_append_left _ hold)

end

/-- **The sequences of a setup**: what the setup writes to make mocks answer are its answers, and no
method of a mock has two sequences. A sequence has the names that hold what the calls to the method
give that the group reaches. They line up with the calls exactly where each call has one: no call
without a reply has a name, and a reply has one where one can be made of its value. -/
theorem sequence_iff_of_synthesis {source : String} {d : Diagram} {o : Model.Options} {m : Model}
    {s : LeafSuffixes} {t : Tests.Tree} (hd : Diagram.parse source = .ok d)
    (hm : d.buildModel o = .ok m) (ht : m.synthesizeTests (m.classify s) = .ok t)
    (code : Code.Tree) (base : String) {suite : Tests.Suite} (hs : suite ∈ t.suites)
    {mt : MethodTests} (hmt : mt ∈ suite.methods) {g : Group} (hg : g ∈ mt.groups) :
    (rendererOf code base).stubLines g [] g.stubs =
        Renderer.concat <$> (answersOf g [] g.stubs).mapM (rendererOf code base).answerText ∧
      ((answersOf g [] g.stubs).filterMap Answer.sequenced?).Nodup ∧
      (∃ x ∈ m.methods, t.TestsOf m x mt) ∧ ∀ x, t.TestsOf m x mt → ∀ mock method holders,
        .sequence mock method holders ∈ answersOf g [] g.stubs → ∀ calls,
          m.callsOn Profile.builtin.naming x g mock method = calls →
            holders = calls.filterMap (g.holder? ·.index) ∧
            (g.LinedUp calls holders ↔ ∀ i ∈ calls, (g.holder? i.index).isSome = true) ∧
            ∀ i ∈ calls, (i.reply = none → g.holder? i.index = none) ∧
              ∀ b, i.reply = some b → Name.snake b.value ≠ "" →
                (g.holder? i.index).isSome = true := by
  have htree := Tests.treeOf_synthesis (Model.sound_of_build (Diagram.sound_of_parse hd) hm) ht
  refine ⟨Renderer.stubLines_eq [] _, (nodup_sequenced [] _).1, htree.exists_testsOf hs hmt, ?_⟩
  rintro x hx mock method holders hsequence _ rfl
  obtain ⟨P, -, hgx⟩ := forall₂_right (hx.methodOf htree).groups g hg
  obtain ⟨stub, -, rfl, rfl, rfl⟩ := exists_stub_of_sequence hsequence
  refine ⟨htree.holders_eq hgx stub, htree.linedUp_iff hgx stub, fun i hi => ?_⟩
  obtain ⟨hi, hreached, -⟩ := Tests.mem_callsOn (c := ⟨m, _, Profile.builtin.naming⟩).1 hi
  refine ⟨htree.holder?_of_void hgx (List.mem_of_mem_filter hi), fun b hb hne => ?_⟩
  refine htree.holder?_of_reply hgx hi hreached hb (Tests.valueName_builtin b.value) hne ?_
  rintro hempty
  rw [hempty] at hne
  exact hne rfl

/-- A diagram with a method of one mock that is called three times and replies twice. -/
def voidBetween : String :=
  "[-> A : run(x)\nA -> BRepository : load(x)\nBRepository --> A : v\n" ++
    "A -> BRepository : load(x)\nBRepository --> A : u\nA -> CClient : find(x)\n" ++
    "CClient --> A : w\nA -> CClient : find(x)\nA -> CClient : find(x)\nCClient --> A : z\n"

/-- The gate passes. The values of one mock line up with the calls, those of the other one do
not. -/
theorem of?_voidBetween : ∃ x ∈ Stages.of? voidBetween, (Gate.run x.tests x.model).passed = true ∧
    ∃ suite ∈ x.tests.suites,
      ∃ z ∈ (x.model.methods.filter (·.owner == suite.subject)).zip suite.methods,
        ∃ g ∈ z.2.groups, g.mode = .noException ∧
          .sequence "b_repository" "load" ["v", "u"] ∈ answersOf g [] g.stubs ∧
          g.LinedUp (x.model.callsOn Profile.builtin.naming z.1 g "b_repository" "load")
            ["v", "u"] ∧
          .sequence "c_client" "find" ["w", "z"] ∈ answersOf g [] g.stubs ∧
          ¬ g.LinedUp (x.model.callsOn Profile.builtin.naming z.1 g "c_client" "find")
            ["w", "z"] := by
  unfold voidBetween
  rw [Stages.of?_toList, String.toList_append, String.toList_append, String.toList_ofList,
    String.toList_ofList, String.toList_ofList]
  decide +kernel

theorem sequence_iff_voidBetween : ∃ d m t, Diagram.parse voidBetween = .ok d ∧
    d.buildModel = .ok m ∧ m.synthesizeTests m.classify = .ok t ∧
      ∃ suite ∈ t.suites, ∃ mt ∈ suite.methods, ∃ x, t.TestsOf m x mt ∧ ∃ g ∈ mt.groups,
        (∃ holders, .sequence "b_repository" "load" holders ∈ answersOf g [] g.stubs ∧
          ∀ i ∈ m.callsOn Profile.builtin.naming x g "b_repository" "load",
            (g.holder? i.index).isSome = true) ∧
        ∃ holders, .sequence "c_client" "find" holders ∈ answersOf g [] g.stubs ∧
          ∃ i ∈ m.callsOn Profile.builtin.naming x g "c_client" "find",
            g.holder? i.index = none := by
  obtain ⟨y, hy, -, suite, hs, ⟨x, mt⟩, hz, g, hg, -, hload, hlined, hfind, hnot⟩ := of?_voidBetween
  obtain ⟨d, hd, hm, ht, -⟩ := Stages.of?_eq_some hy
  have hmt := (List.of_mem_zip hz).2
  have hx := Tests.testsOf_of_zip hs hz
  obtain ⟨-, -, -, hall⟩ := sequence_iff_of_synthesis hd hm ht y.code "app" hs hmt hg
  obtain ⟨-, hiff, -⟩ := hall x hx _ _ _ hload _ rfl
  obtain ⟨-, hiff', -⟩ := hall x hx _ _ _ hfind _ rfl
  have hvoid : ∃ i ∈ y.model.callsOn Profile.builtin.naming x g "c_client" "find",
      g.holder? i.index = none := by
    by_contra hnone
    refine hnot (hiff'.2 fun i hi => ?_)
    rw [Option.isSome_iff_ne_none]
    exact fun hi' => hnone ⟨i, hi, hi'⟩
  exact ⟨d, y.model, y.tests, hd, hm, ht, suite, hs, mt, hmt, x, hx, g, hg,
    ⟨_, hload, hiff.1 hlined⟩, _, hfind, hvoid⟩

/-- Sequences do not always line up with the calls, also where nothing is raised, the gate passes
and the files are written. -/
theorem not_sequence_voidBetween : ¬ ∀ (source : String) (d : Diagram) (o : Model.Options)
    (m : Model) (t : Tests.Tree) (code : Code.Tree) (base : String) (files : List File),
      Diagram.parse source = .ok d → d.buildModel o = .ok m →
        m.synthesizeTests m.classify = .ok t → (Gate.run t m).passed = true →
          t.synthesizeCode = .ok code → render t code .builtin base = .ok files →
            ∀ suite ∈ t.suites, ∀ mt ∈ suite.methods, ∀ x, t.TestsOf m x mt → ∀ g ∈ mt.groups,
              g.mode = .noException → ∀ mock method holders,
                .sequence mock method holders ∈ answersOf g [] g.stubs →
                  g.LinedUp (m.callsOn Profile.builtin.naming x g mock method) holders := by
  intro hall
  obtain ⟨y, hy, hgate, suite, hs, ⟨x, mt⟩, hz, g, hg, hmode, -, -, hfind, hnot⟩ := of?_voidBetween
  obtain ⟨d, hd, hm, ht, hc⟩ := Stages.of?_eq_some hy
  obtain ⟨files, hfiles⟩ := exists_render y.tests y.code "app"
  exact hnot (hall _ d _ _ _ _ "app" files hd hm ht hgate hc hfiles suite hs mt
    (List.of_mem_zip hz).2 x (Tests.testsOf_of_zip hs hz) g hg hmode _ _ _ hfind)

end Lifeline.Source
