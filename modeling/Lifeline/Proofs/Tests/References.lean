import Lifeline.Proofs.Lists
import Lifeline.Proofs.Outcome
import Lifeline.Proofs.Model.Sound
import Lifeline.Tests.Synthesis

/-!
# References to blocks

`RefOf f r`: the reference `r` names the block and the branch of the frame `f`. The references of a
scope name its frames, one by one (`Context.scopeRefs_ok`), and are the same wherever one branch or
one loop is referred to (`Context.Refers.eq`). Among the scopes of one timeline the choices of
references say as much as the frames do (`Timeline.Fits.prefix_iff`).
-/

namespace Lifeline.Model

/-- The block and the branch of a frame, as references have them. -/
def Frame.choice (f : Frame) : Int × Int := (f.block, f.branch)

/-- Scopes whose blocks have one kind each are compared by their choices. -/
theorem prefix_of_choices : ∀ {S T : Scope},
    (∀ f ∈ S, ∀ g ∈ T, f.block = g.block → f.kind = g.kind) →
      S.map Frame.choice <+: T.map Frame.choice → S <+: T
  | [], _, _, _ => List.nil_prefix
  | f :: S, [], _, h => by simp at h
  | f :: S, g :: T, hk, h => by
    rw [List.map_cons, List.map_cons, List.cons_prefix_cons] at h
    obtain ⟨hb, hbr⟩ : f.block = g.block ∧ f.branch = g.branch := by
      have hc := h.1
      simp only [Frame.choice, Prod.mk.injEq] at hc
      omega
    have hkind := hk f (.head _) g (.head _) hb
    obtain rfl : f = g := by
      cases f
      cases g
      simp_all
    refine List.cons_prefix_cons.2 ⟨rfl, prefix_of_choices (fun f hf g hg => ?_) h.2⟩
    exact hk f (.tail _ hf) g (.tail _ hg)

namespace Timeline.Fits

variable {m : Model} {tl : Timeline} (h : tl.Fits m)
include h

theorem loop_branch {n : Nat} {μ : MethodId} {f : Frame} (hf : f ∈ tl.scopeAt n μ)
    (hk : f.kind = .loop) : f.branch = 0 := by
  obtain ⟨S, T, hs⟩ := List.append_of_mem hf
  exact (h.loop hs hk).1

/-- A block is of one kind, wherever it is met. -/
theorem kind_of_block (hs : m.Sound) {i j : Nat} {μ ν : MethodId} {f g : Frame}
    (hf : f ∈ tl.scopeAt i μ) (hg : g ∈ tl.scopeAt j ν) (hb : f.block = g.block) :
    f.kind = g.kind := by
  obtain ⟨S, T, hS⟩ := List.append_of_mem hf
  obtain ⟨S', T', hS'⟩ := List.append_of_mem hg
  cases hfk : f.kind with
  | alt =>
    cases hgk : g.kind with
    | alt => rfl
    | loop =>
      obtain ⟨b, hb', hid, -⟩ := h.alt hS hfk
      obtain ⟨-, l, hl, hlid, -⟩ := h.loop hS' hgk
      exact absurd (by rw [hid, hlid, hb]) (hs.kinds b hb' l hl)
  | loop =>
    cases hgk : g.kind with
    | loop => rfl
    | alt =>
      obtain ⟨b, hb', hid, -⟩ := h.alt hS' hgk
      obtain ⟨-, l, hl, hlid, -⟩ := h.loop hS hfk
      exact absurd (by rw [hid, hlid, hb]) (hs.kinds b hb' l hl)

/-- Scopes of one timeline are compared by their choices. -/
theorem prefix_iff (hs : m.Sound) {i j : Nat} {μ ν : MethodId} :
    (tl.scopeAt i μ).map Frame.choice <+: (tl.scopeAt j ν).map Frame.choice ↔
      tl.scopeAt i μ <+: tl.scopeAt j ν :=
  ⟨prefix_of_choices fun _ hf _ hg => h.kind_of_block hs hf hg, fun hp => hp.map _⟩

end Timeline.Fits

end Lifeline.Model

namespace Lifeline.Tests

open Model

/-- The reference names the block of a frame and the branch of it. -/
structure RefOf (f : Frame) (r : ScopeRef) : Prop where
  kind : r.kind = f.kind
  block : r.block = f.block
  branch : f.kind = .alt → r.branch = f.branch
  loop : f.kind = .loop → r.branch = 0

/-- The references name the frames of a scope, one by one. -/
abbrev RefsOf (scope : Scope) (refs : List ScopeRef) : Prop := List.Forall₂ RefOf scope refs

@[simp] theorem lift_ok {α : Type} {x : Naming α} {a : α} :
    (liftM x : Synthesis α) = .ok a ↔ x = .ok a := by
  cases x <;> simp [liftM, monadLift, MonadLift.monadLift, Naming.lift]

namespace Context

/-- A branch that is known is referred to. -/
theorem knownBranch_ok {c : Context} {choice : Nat × Nat} {r : ScopeRef}
    (h : c.knownBranch choice = .ok r) : r = c.branchRef choice := by
  unfold knownBranch at h
  split at h
  · exact (Except.ok.inj h).symm
  · cases h

theorem knownBranches_ok {c : Context} {choices : Path} {refs : List ScopeRef}
    (h : choices.mapM c.knownBranch = .ok refs) : refs = choices.map c.branchRef := by
  have hr := forall₂_map (f := c.branchRef) (g := id) (mapM_ok.1 h) fun _ _ hr =>
    (knownBranch_ok hr).symm
  rw [hr, List.map_id]

theorem branchRef_of {c : Context} {f : Frame} (hf : f.kind = .alt) :
    RefOf f (c.branchRef (f.block, f.branch)) :=
  ⟨hf.symm, rfl, fun _ => rfl, fun hl => absurd (hf.symm.trans hl) (by simp)⟩

theorem loopRef_ok {c : Context} {l : Loop} {r : ScopeRef} (h : c.loopRef l = .ok r) :
    r.kind = .loop ∧ r.block = l.id ∧ r.branch = 0 := by
  simp only [loopRef, bind_ok, pure_ok] at h
  obtain ⟨element, -, collection, -, rfl⟩ := h
  exact ⟨rfl, rfl, rfl⟩

theorem scopeRefs_ok {c : Context} {scope : Scope} {refs : List ScopeRef}
    (h : c.scopeRefs scope = .ok refs) : RefsOf scope refs := by
  refine (mapM_ok.1 h).imp fun f r hr => ?_
  split at hr
  · rename_i l hk hl
    obtain ⟨hrk, hrb, hr0⟩ := loopRef_ok (lift_ok.1 hr)
    have hid : l.id = f.block := by simpa using List.find?_some hl
    exact ⟨hrk.trans hk.symm, by rw [hrb, hid], fun ha => absurd (hk.symm.trans ha) (by simp),
      fun _ => hr0⟩
  · cases hr
  · rename_i hk
    rw [knownBranch_ok hr]
    exact branchRef_of hk

/-- A reference to a branch or to a loop of the model, as the tree has it. -/
inductive Refers (c : Context) : ScopeRef → Prop
  | branch (choice : Nat × Nat) : c.Refers (c.branchRef choice)
  | loop {l : Loop} {r : ScopeRef} (hl : l ∈ c.model.loops) (h : c.loopRef l = .ok r) : c.Refers r

theorem refers_of_scopeRefs {c : Context} {scope : Scope} {refs : List ScopeRef}
    (h : c.scopeRefs scope = .ok refs) : ∀ r ∈ refs, c.Refers r := by
  intro r hr
  obtain ⟨f, -, hf⟩ := forall₂_right (mapM_ok.1 h) r hr
  split at hf
  · rename_i l _ hl
    exact .loop (List.mem_of_find?_eq_some hl) (lift_ok.1 hf)
  · cases hf
  · rw [knownBranch_ok hf]
    exact .branch _

/-- References to one branch, or to one loop, are the same. -/
theorem Refers.eq {c : Context} (hs : c.model.Sound) {r r' : ScopeRef} (h : c.Refers r)
    (h' : c.Refers r') (hk : r.kind = r'.kind) (hb : r.block = r'.block)
    (hbr : r.kind = .loop ∨ r.branch = r'.branch) : r = r' := by
  cases h with
  | branch choice =>
    cases h' with
    | branch choice' =>
      have hbranch := hbr.resolve_left (by simp [branchRef])
      simp only [branchRef] at hb hbranch
      rw [Prod.ext (Int.ofNat.inj hb) (Int.ofNat.inj hbranch)]
    | loop hl h' => exact absurd (hk.trans (loopRef_ok h').1) (by simp [branchRef])
  | @loop l _ hl h =>
    cases h' with
    | branch choice' => exact absurd (hk.symm.trans (loopRef_ok h).1) (by simp [branchRef])
    | @loop l' _ hl' h' =>
      have hid : l.id = l'.id := by
        have h1 := (loopRef_ok h).2.1
        have h2 := (loopRef_ok h').2.1
        omega
      obtain rfl := List.inj_on_of_nodup_map hs.loops hl hl' hid
      exact Except.ok.inj (h.symm.trans h')

end Context

end Lifeline.Tests
