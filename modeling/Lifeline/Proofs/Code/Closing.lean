import Lifeline.Proofs.Code.Declared
import Lifeline.Proofs.Code.Variables

/-!
# A return ends its list

Results are put behind everything in their scopes, so in the events of a method no event behind a
result lies in the scope of the result (`Told.closing_placed`). The fold passes this on to the
events inside each block (`Closing.inner`), and where it holds, a return is the last statement of
its list (`Closing.last`). So nothing follows a return, in no list of statements of a generated
class (`last_of_return`).
-/

set_option autoImplicit false

namespace Lifeline.Code

open Model
open Tests (Context MethodTests ScopeRef)

/-! ## Lists of statements -/

/-- The lists that a statement holds: the body of a loop, or those of the branches. -/
inductive Statement.Holds : Statement → List Statement → Prop
  | loop (head : LoopHead) (inner : List Statement) : Holds (.iteration head inner) inner
  | branch {block sequence : Int} {branches : List (BranchHead × List Statement)}
      {b : BranchHead × List Statement} (hb : b ∈ branches) :
      Holds (.conditional block branches sequence) b.2

/-- The lists of statements in a body: the body itself, and what its statements hold, however
deep. -/
inductive Within (body : List Statement) : List Statement → Prop
  | whole : Within body body
  | inside {l inner : List Statement} {s : Statement} (hl : Within body l) (hs : s ∈ l)
      (h : s.Holds inner) : Within body inner

theorem within_nil {l : List Statement} (h : Within [] l) : l = [] := by
  induction h with
  | whole => rfl
  | inside _ hs _ ih =>
    rw [ih] at hs
    cases hs

/-! ## Events behind results -/

/-- The event is a result. -/
def Placed.Returns (p : Placed) : Prop := ∃ s, p.event.statement = some (.return s)

/-- Events in good order, none of which lies behind a result in whose scope it is. -/
structure Closing (ps : List Placed) : Prop extends Orderly ps where
  behind : ps.Pairwise fun p q => p.Returns → ¬ choices p.scope <+: choices q.scope

variable {k : Knowledge} {fuel : Nat} {ps qs : List Placed}

theorem Closing.sublist (h : Closing ps) (hs : qs.Sublist ps) : Closing qs :=
  ⟨h.toOrderly.sublist hs, h.behind.sublist hs⟩

/-- Inside one branch of a block, or inside a loop, scopes compare as they do further in. -/
theorem Closing.enter (h : Closing ps) (choice : Int × Int)
    (hc : ∀ p ∈ ps, ∃ r rest, p.scope = r :: rest ∧ r.choice = choice) :
    Closing (ps.map (·.enter)) := by
  refine ⟨h.toOrderly.enter, List.pairwise_map.2 (h.behind.imp_of_mem ?_)⟩
  intro p q hp hq hpq hr hpre
  obtain ⟨r, rest, hp, hrc⟩ := hc p hp
  obtain ⟨r', rest', hq, hrc'⟩ := hc q hq
  refine hpq hr ?_
  simp only [Placed.enter, hp, hq, List.drop_succ_cons, List.drop_zero] at hpre
  rw [hp, hq, choices, choices, List.map_cons, List.map_cons, hrc, hrc', List.cons_prefix_cons]
  exact ⟨rfl, hpre⟩

/-! ## What the fold makes of them -/

theorem Run.items_ne_nil (run : Run) : run.items ≠ [] := by cases run <;> exact List.cons_ne_nil _ _

/-- A part with a return is made of a result outside all blocks. -/
theorem RunOf.of_return {run : Run} {part : List Statement} (h : RunOf k fuel run part)
    {s : ReturnStatement} (hs : .return s ∈ part) : ∃ p, run = .single p ∧ p.Returns := by
  cases h with
  | single p => exact ⟨p, rfl, s, by simpa using hs⟩
  | loop | alt => simp at hs

theorem RunOf.length_le {run : Run} {part : List Statement} (h : RunOf k fuel run part) :
    part.length ≤ 1 := by
  cases h with
  | single p => cases p.event.statement <;> simp
  | loop | alt => exact Nat.le_refl 1

/-- **A return comes last**: the scope of a result outside all blocks is around everything, so
nothing is behind it. -/
theorem Closing.last (h : Closing ps) {body : List Statement}
    (hb : Yields (foldPlaced k fuel ps) body) : body.Pairwise fun s _ => ∀ r, s ≠ .return r := by
  cases fuel with
  | zero =>
    obtain rfl := yields_pure hb
    exact .nil
  | succ fuel =>
    obtain ⟨parts, rfl, hparts⟩ := folds_succ hb
    have hbehind := h.behind
    rw [← items_runs (Nat.le_refl ps.length), List.pairwise_flatMap] at hbehind
    have hfits := (List.forall₂_and_left (p := fun run : Run => run.Fits) _ _).2
      ⟨fits_runs, hparts⟩
    refine List.pairwise_flatten.2 ⟨fun part hpart => ?_, forall₂_pairwise hfits hbehind.2
      fun run run' part part' hrun ⟨hf, hof⟩ _ s hs _ _ r hr => ?_⟩
    · obtain ⟨run, -, hof⟩ := forall₂_right hparts part hpart
      match part, hof.length_le with
      | [], _ => exact .nil
      | [_], _ => exact List.pairwise_singleton _ _
    · obtain ⟨p, rfl, hp⟩ := hof.of_return (hr ▸ hs)
      obtain ⟨q, hq⟩ := List.exists_mem_of_ne_nil _ run'.items_ne_nil
      have hnil : p.scope = [] := hf
      exact hrun p (.head _) q hq hp (by simp [hnil, choices])

/-- What the fold makes of the events inside a block is made of closing events again. -/
theorem Closing.inner_of_run {run : Run} {part : List Statement} (h : Closing run.items)
    (hf : run.Fits) (hof : RunOf k fuel run part) {s : Statement} (hs : s ∈ part)
    {inner : List Statement} (hi : s.Holds inner) :
    ∃ qs, Closing qs ∧ Yields (foldPlaced k fuel qs) inner := by
  cases hof with
  | single p =>
    rcases h.plain p (.head _) s (by simpa using hs) with ⟨_, rfl⟩ | ⟨_, rfl⟩ | ⟨_, rfl⟩ <;> cases hi
  | @loop r first rest body head hk hm hb hh =>
    obtain rfl := List.mem_singleton.1 hs
    obtain ⟨⟩ := hi
    refine ⟨_, h.enter r.choice fun p hp => ?_, hb⟩
    obtain ⟨r', rest', hp', hblock⟩ := Placed.head_of_isIn (hf.2 p hp)
    obtain ⟨hkind, heq⟩ := h.consistent first (.head _) p hp r (List.mem_of_mem_head? hf.1) r'
      (by simp [hp']) hblock.symm
    exact ⟨r', rest', hp', by rw [heq (.inl hk)]⟩
  | @alt r first rest branches sequence hk hm hb =>
    obtain rfl := List.mem_singleton.1 hs
    obtain _ | ⟨hbranch⟩ := hi
    obtain ⟨index, -, -, -, hbody⟩ := forall₂_right hb _ hbranch
    have hsub : (inBranch (first :: rest) index).Sublist (first :: rest) := List.filter_sublist
    refine ⟨_, (h.sublist hsub).enter (r.block, index) fun p hp => ?_, hbody⟩
    obtain ⟨r', rest', hp', hblock⟩ := Placed.head_of_isIn (hf.2 p (hsub.subset hp))
    have hindex : r'.branch = index := by simpa [hp'] using (List.mem_filter.1 hp).2
    exact ⟨r', rest', hp', Prod.ext hblock hindex⟩

theorem Closing.inner (h : Closing ps) {body : List Statement}
    (hb : Yields (foldPlaced k fuel ps) body) {s : Statement} (hs : s ∈ body)
    {inner : List Statement} (hi : s.Holds inner) :
    ∃ fuel qs, Closing qs ∧ Yields (foldPlaced k fuel qs) inner := by
  cases fuel with
  | zero =>
    obtain rfl := yields_pure hb
    cases hs
  | succ fuel =>
    obtain ⟨parts, rfl, hparts⟩ := folds_succ hb
    obtain ⟨part, hpart, hs⟩ := List.mem_flatten.1 hs
    obtain ⟨run, hrun, hof⟩ := forall₂_right hparts part hpart
    exact ⟨fuel, (h.sublist (sublist_of_run hrun)).inner_of_run (fits_runs run hrun) hof hs hi⟩

/-- Every list of statements in a body that is made of closing events is made of such events. -/
theorem Closing.within (h : Closing ps) {body l : List Statement}
    (hb : Yields (foldPlaced k fuel ps) body) (hl : Within body l) :
    ∃ fuel qs, Closing qs ∧ Yields (foldPlaced k fuel qs) l := by
  induction hl with
  | whole => exact ⟨fuel, ps, h, hb⟩
  | inside _ hs hi ih =>
    obtain ⟨_, _, hc, hyields⟩ := ih
    exact hc.inner hyields hs hi

/-! ## Settled results -/

/-- What lies in the scope of a result comes before the result, once that is settled. -/
theorem Event.le_settled {events : List Event} {e y : Event} (hy : y ∈ events)
    (hr : e.key.isResult = true) (hpre : choices e.scope <+: choices y.scope) :
    y.moment < (settled events e).moment ∨ settled events e = e ∧ y.moment ≤ e.moment := by
  have hle : y.moment ≤ latestIn events e.scope e.moment := moment_le_latestIn hy hpre
  unfold settled
  split
  · exact .inl (by dsimp only; omega)
  · rename_i hstays
    have hlatest : ¬ e.moment < latestIn events e.scope e.moment := fun hlt => hstays ⟨hr, hlt⟩
    exact .inr ⟨rfl, by omega⟩

namespace Told

variable {c : Context} {x : Model.Method} {mt : MethodTests} {tl : Timeline} {events : List Event}
  (h : Told c x mt tl events)
include h

/-- An event that returns is a result. -/
theorem isResult_of_return {e : Event} (he : e ∈ events) {s : ReturnStatement}
    (hs : e.statement = some (.return s)) : e.key.isResult = true := by
  rcases h.told e he with ⟨-, hnone⟩ | ⟨a, -, hof⟩
  · rw [hnone] at hs
    cases hs
  · cases hof with
    | call | raise => cases hs
    | result => rfl

theorem returns_of_isResult {e : Event} (he : e ∈ events) (hr : e.key.isResult = true) :
    (e.placedIn events).Returns := by
  rcases h.told e he with ⟨⟨block, branch, hkey⟩, -⟩ | ⟨a, -, hof⟩
  · rw [hkey] at hr
    cases hr
  · cases hof with
    | call | raise => cases hr
    | result => exact ⟨_, Event.settled_statement events _⟩

/-- Two results do not have the same scope. -/
theorem scope_ne {e e' : Event} (he : e ∈ events) (he' : e' ∈ events) (hne : e ≠ e')
    (hr : e.key.isResult = true) (hr' : e'.key.isResult = true)
    (hpre : choices e.scope <+: choices e'.scope) : ¬ choices e'.scope <+: choices e.scope := by
  intro hpre'
  rcases pair_sublist_or hne he he' with hs | hs
  · exact List.pairwise_iff_forall_sublist.1 h.outward hs hr hr' hpre'
  · exact List.pairwise_iff_forall_sublist.1 h.outward hs hr' hr hpre

/-- **The events of a method close**: where a body is made of them, no event behind a result lies in
the scope of the result. -/
theorem closing_placed {body : List Statement}
    (hb : Yields (fold k (events.map (Event.settled events))) body) : Closing (placed events) := by
  refine ⟨h.orderly, List.pairwise_iff_forall_sublist.2 ?_⟩
  rintro p q hpq ⟨s, hs⟩ hpre
  have hle := (timed_placed events).le hpq
  have hkeys := (nodup_placed h.nodup).sublist (hpq.map fun p => p.event.key)
  obtain ⟨e, he, rfl⟩ := mem_placed.1 (hpq.subset (.head _))
  obtain ⟨e', he', rfl⟩ := mem_placed.1 (hpq.subset (.tail _ (.head _)))
  have hne : e ≠ e' := by
    rintro rfl
    simp at hkeys
  have hr := h.isResult_of_return he ((Event.settled_statement events e).symm.trans hs)
  replace hle : (Event.settled events e).moment ≤ (Event.settled events e').moment := hle
  replace hpre : choices e.scope <+: choices e'.scope := hpre
  rcases h.settled_cases he' with ⟨hstays', -⟩ | ⟨hodd, hr', y, hy, hys, hmoved, -⟩
  · rw [hstays'] at hle
    rcases Event.le_settled he' hr hpre with hlt | ⟨hstays, hback⟩
    · omega
    · rw [hstays] at hle
      exact hne (h.eq_of_moment he he' (by omega))
  · -- the second one is a result that has moved behind an event, which lies in both scopes
    rcases Event.le_settled hy hr (hpre.trans hys) with hlt | ⟨hstays, hback⟩
    · by_cases hpre' : choices e'.scope <+: choices e.scope
      · exact h.scope_ne he he' hne hr hr' hpre hpre'
      · refine h.not_tied hb ⟨_, List.mem_map_of_mem he, _, List.mem_map_of_mem he', by omega,
          by omega, ?_, ?_⟩
        · simpa using hpre
        · simpa using hpre'
    · rw [hstays] at hle
      obtain ⟨n, hn⟩ := h.even he
      obtain ⟨n', hn'⟩ := h.even hy
      obtain rfl := h.eq_of_moment he hy (by omega)
      exact h.scope_ne he he' hne hr hr' hpre hys

end Told

/-! ## Generated methods -/

/-- **A return ends its list**: in a generated class, nothing follows a return in the body of a
method, of a branch or of a loop. -/
theorem last_of_return {source : String} {d : Diagram} {o : Options} {m : Model}
    {s : LeafSuffixes} {p : Profile} {t : Tests.Tree} {code : Tree}
    (hd : Diagram.parse source = .ok d) (hm : d.buildModel o = .ok m)
    (ht : m.synthesizeTests (m.classify s) p = .ok t) (hc : t.synthesizeCode p = .ok code)
    {cls : Class} (hcls : cls ∈ code.classes) {f : Method} (hf : f ∈ cls.methods)
    {l : List Statement} (hl : Within f.body l) {before after : List Statement}
    {r : ReturnStatement} (hcut : l = before ++ .return r :: after) : after = [] := by
  have hbody : f.body ≠ [] := fun hnil => by
    rw [hnil] at hl
    simp [within_nil hl] at hcut
  obtain ⟨_, _, _, _, _, _, _, _, _, htold, hyields⟩ :=
    exists_told_method hd hm ht hc hcls hf hbody
  obtain ⟨_, _, hclosing, hlist⟩ := (htold.closing_placed hyields).within hyields hl
  have hlast := hclosing.last hlist
  rw [hcut, List.pairwise_append, List.pairwise_cons] at hlast
  by_contra hafter
  obtain ⟨s, hs⟩ := List.exists_mem_of_ne_nil _ hafter
  exact hlast.2.1.1 s hs r rfl

/-- A method with two results, both of which are given before the last statement of their lists. -/
def movedResults : String :=
  "[-> A : run(x)\nA -->] : x\nalt [x.ready]\nA -> BRepository : load(x)\n" ++
    "BRepository --> A : v\nA -->] : v\nA -> CClient : send(v)\nend\nA -> CClient : push(x)\n"

/-- Two calls and the result of the branch, then a call and the result of the method. -/
theorem of?_movedResults : ∃ x ∈ Stages.of? movedResults, ∃ cls ∈ x.code.classes,
    ∃ f ∈ cls.methods, (match f.body with
      | [.conditional _ [(_, [.call _, .call _, .return _])] _, .call _, .return _] => true
      | _ => false) = true := by
  unfold movedResults
  rw [Stages.of?_toList, String.toList_append, String.toList_ofList, String.toList_ofList]
  decide +kernel

theorem last_of_return_movedResults : ∃ x ∈ Stages.of? movedResults, ∃ cls ∈ x.code.classes,
    ∃ f ∈ cls.methods, ∃ l before r, Within f.body l ∧ l ≠ f.body ∧ l = before ++ [.return r] ∧
      ∀ after, l = before ++ .return r :: after → after = [] := by
  obtain ⟨x, hx, cls, hcls, f, hf, hshape⟩ := of?_movedResults
  obtain ⟨d, hd, hm, ht, hc⟩ := Stages.of?_eq_some hx
  split at hshape
  · rename_i block branch load send r sequence push r' hbody
    have hs : .conditional block [(branch, [.call load, .call send, .return r])] sequence ∈
        f.body := by simp [hbody]
    have hl : Within f.body [.call load, .call send, .return r] :=
      .inside .whole hs (.branch (.head _))
    exact ⟨x, hx, cls, hcls, f, hf, _, [.call load, .call send], r, hl, by simp [hbody], rfl,
      fun after hcut => last_of_return hd hm ht hc hcls hf hl hcut⟩
  · cases hshape

end Lifeline.Code
