import Lifeline.Model.Build
import Lifeline.Proofs.Lists
import Lifeline.Proofs.Model.Messages
import Lifeline.Proofs.Model.Sound

/-!
# The scopes of a layout

`Walk.scopeAt es w n μ`: the blocks around the position `n` that belong to the method `μ`. It is
what the layout of the walk gives for a place there (`Tracks.scopeIn_eq`), its blocks are the
alternatives and loops of the layout (`Tracks.alt_scope`, `Tracks.loop_scope`), and a chain of
frames around two positions is around all positions between them (`Tracks.between`).
-/

namespace Lifeline.Model

/-- A filtered list that is cut at an item comes from the list cut at that item. -/
theorem cut_of_filter {α : Type} {p : α → Bool} {l S T : List α} {f : α}
    (h : l.filter p = S ++ f :: T) :
    ∃ X Y, l = X ++ f :: Y ∧ X.filter p = S ∧ p f = true := by
  obtain ⟨X, Y, rfl, hX, hY⟩ := List.filter_eq_append_iff.1 h
  obtain ⟨Z, Y, rfl, hZ, hf, -⟩ := List.filter_eq_cons_iff.1 hY
  refine ⟨X ++ Z, Y, by simp, ?_, hf⟩
  rw [List.filter_append, hX, List.filter_eq_nil_iff.2 hZ, List.append_nil]

theorem framesAt_of_length_le {es : List Element} {n : Nat} (h : es.length ≤ n) :
    framesAt es n = framesAt es es.length := by
  rw [framesAt, framesAt, List.take_of_length_le h, List.take_length]

theorem framesAt_sorted (es : List Element) (n : Nat) :
    (framesAt es n).Pairwise fun f g => f.block < g.block :=
  List.pairwise_reverse.2 (Blocks.after_ok _).sorted

namespace Layout

/-! ## Blocks -/

theorem mem_alternatives {l : Layout} {b : Alternative} : b ∈ l.alternatives ↔
    ∃ (id : Nat) (f : Fragment), l.walk.fragments[id]? = some f ∧ f.kind = .alt ∧
      b = { id, method := l.ownerOf id
            branches := f.guards.zipIdx.map fun x => ⟨x.2, x.1.1, x.1.2⟩
            depth := l.depthOf id f, scope := l.scopeIn f.parents (l.ownerOf id)
            position := f.position, line := f.line } := by
  simp only [alternatives, List.mem_filterMap, Prod.exists, List.mk_mem_zipIdx_iff_getElem?]
  constructor
  · rintro ⟨f, id, hf, h⟩
    split at h
    · rename_i hk
      exact ⟨id, f, hf, by simpa using hk, (Option.some.inj h).symm⟩
    · cases h
  · rintro ⟨id, f, hf, hk, rfl⟩
    exact ⟨f, id, hf, by simp [hk]⟩

theorem mem_loops {l : Layout} {b : Loop} : b ∈ l.loops ↔
    ∃ (id : Nat) (f : Fragment), l.walk.fragments[id]? = some f ∧ f.kind = .loop ∧
      b = { id, method := l.ownerOf id, label := f.label
            element := f.loopNames?.map (·.1), collection := f.loopNames?.map (·.2)
            producer := f.loopNames?.bind fun x =>
              l.latestBinding (Name.root x.2) ⟨f.position, l.ownerOf id, f.parents⟩
            scope := l.scopeIn f.parents (l.ownerOf id)
            position := f.position, line := f.line } := by
  simp only [loops, List.mem_filterMap, Prod.exists, List.mk_mem_zipIdx_iff_getElem?]
  constructor
  · rintro ⟨f, id, hf, h⟩
    split at h
    · rename_i hk
      exact ⟨id, f, hf, by simpa using hk, (Option.some.inj h).symm⟩
    · cases h
  · rintro ⟨id, f, hf, hk, rfl⟩
    exact ⟨f, id, hf, by simp [hk]⟩

/-- The blocks that pass a test are numbered upwards. -/
theorem pairwise_ids {β : Type} (fs : List Fragment) (g : Fragment × Nat → Option β) (id : β → Nat)
    (h : ∀ x b, g x = some b → id b = x.2) :
    ((fs.zipIdx.filterMap g).map id).Pairwise (· < ·) := by
  have hsub : ((fs.zipIdx.filterMap g).map id).Sublist (fs.zipIdx.map (·.2)) := by
    induction fs.zipIdx with
    | nil => exact .slnil
    | cons x xs ih =>
      rw [List.filterMap_cons]
      cases hx : g x with
      | none => exact ih.cons _
      | some b =>
        rw [List.map_cons, List.map_cons, h x b hx]
        exact ih.cons_cons _
  refine List.Pairwise.sublist hsub ?_
  rw [List.zipIdx_map_snd]
  exact List.pairwise_lt_range' 1

theorem pairwise_alternatives (l : Layout) : (l.alternatives.map (·.id)).Pairwise (· < ·) := by
  refine pairwise_ids _ _ _ fun (f, id) b h => ?_
  dsimp only at h
  split at h
  · exact (Option.some.inj h) ▸ rfl
  · cases h

theorem nodup_loops (l : Layout) : (l.loops.map (·.id)).Nodup := by
  refine (pairwise_ids _ _ _ fun (f, id) b h => ?_).imp Nat.ne_of_lt
  dsimp only at h
  split at h
  · exact (Option.some.inj h) ▸ rfl
  · cases h

theorem alternative_ne_loop {l : Layout} {b : Alternative} {x : Loop} (hb : b ∈ l.alternatives)
    (hx : x ∈ l.loops) : b.id ≠ x.id := by
  obtain ⟨id, f, hf, hk, rfl⟩ := mem_alternatives.1 hb
  obtain ⟨id', f', hf', hk', rfl⟩ := mem_loops.1 hx
  rintro rfl
  obtain rfl := Option.some.inj (hf.symm.trans hf')
  exact absurd (hk.symm.trans hk') (by simp)

end Layout

namespace Walk

/-- The blocks of a method around a position. -/
def scopeAt (es : List Element) (w : Walk) (n : Nat) (μ : MethodId) : Scope :=
  (framesAt es n).filter fun f => w.layout.ownerOf f.block == μ

variable {es : List Element} {w : Walk} (h : Tracks es w)
include h

theorem Tracks.known_at {n : Nat} {pre suf : List Frame} {f : Frame}
    (hf : framesAt es n = pre ++ f :: suf) : f.Known es w.shape n pre := by
  rcases Nat.le_total n es.length with hn | hn
  · exact h.chain n hn pre f suf hf
  · rw [framesAt_of_length_le hn] at hf
    exact (h.chain _ (Nat.le_refl _) pre f suf hf).later hn

/-- What the fragments record of a block was found in the elements. -/
theorem Tracks.found_at {b : Nat} {g : Fragment} (hg : w.fragments[b]? = some g) :
    g.unowned.Found es b :=
  h.found b g.unowned (by rw [shape, List.getElem?_map, hg]; rfl)

theorem Tracks.fragment_at {n : Nat} {pre suf : List Frame} {f : Frame}
    (hf : framesAt es n = pre ++ f :: suf) :
    ∃ g : Fragment, w.fragments[f.block]? = some g ∧ g.unowned.Found es f.block ∧
      g.kind = f.kind ∧ framesAt es g.position = pre ∧ g.position < n ∧
      (f.kind = .alt → ∃ x, g.guards[f.branch]? = some x ∧ x.2 < n) ∧
      (f.kind = .loop → f.branch = 0) := by
  obtain ⟨g', hid, hk, hpre, hpos, halt, hloop⟩ := h.known_at hf
  have hfound := h.found _ _ hid
  rw [shape, List.getElem?_map, Option.map_eq_some_iff] at hid
  obtain ⟨g, hg, rfl⟩ := hid
  exact ⟨g, hg, hfound, hk, hpre, hpos, halt, hloop⟩

/-- A layout finds the blocks of a method around a position. -/
theorem Tracks.scopeIn_eq {n : Nat} {enclosing : List Enclosure}
    (he : enclosing = (framesAt es n).map Frame.enclosure) (μ : MethodId) :
    w.layout.scopeIn enclosing μ = scopeAt es w n μ := by
  rw [Layout.scopeIn, he, List.filterMap_map, scopeAt, ← List.filterMap_eq_filter]
  refine List.filterMap_congr fun f hf => ?_
  obtain ⟨pre, suf, hs⟩ := List.append_of_mem hf
  obtain ⟨g, hg, -, hk, -⟩ := h.fragment_at hs
  have hg' : w.layout.walk.fragments[f.block]? = some g := hg
  simp only [Function.comp_apply, Frame.enclosure, hg', hk]
  by_cases hf : (w.layout.ownerOf f.block == μ) = true <;> simp [Option.guard, hf]

theorem Tracks.between {μ : MethodId} {P : List Frame} {i j k : Nat} (hij : i ≤ j) (hjk : j ≤ k)
    (hi : P <+: scopeAt es w i μ) (hk : P <+: scopeAt es w k μ) : P <+: scopeAt es w j μ := by
  rcases P.eq_nil_or_concat' with rfl | ⟨S, f, rfl⟩
  · exact List.nil_prefix
  obtain ⟨T, hT⟩ := hi
  obtain ⟨T', hT'⟩ := hk
  rw [List.append_assoc, List.singleton_append] at hT hT'
  obtain ⟨X, Y, hX, hS, hf⟩ := cut_of_filter hT.symm
  obtain ⟨X', Y', hX', -, -⟩ := cut_of_filter hT'.symm
  obtain ⟨g, hg, -, -, hgX, -⟩ := h.fragment_at hX
  obtain ⟨g', hg', -, -, hgX', -⟩ := h.fragment_at hX'
  obtain rfl := Option.some.inj (hg.symm.trans hg')
  obtain rfl := hgX.symm.trans hgX'
  have hj : X ++ [f] <+: framesAt es j :=
    framesAt_between hij hjk ⟨Y, by simp [hX]⟩ ⟨Y', by simp [hX']⟩
  have := hj.filter fun f => w.layout.ownerOf f.block == μ
  rwa [List.filter_append, hS, List.filter_singleton, hf, cond_true] at this

theorem Tracks.alt_scope {n : Nat} {μ : MethodId} {S T : Scope} {f : Frame}
    (hs : scopeAt es w n μ = S ++ f :: T) (hk : f.kind = .alt) :
    ∃ b ∈ w.layout.alternatives, b.id = f.block ∧ b.method = μ ∧ b.scope = S ∧
      ∃ br ∈ b.branches, br.index = f.branch ∧ br.position < n := by
  obtain ⟨X, Y, hX, hS, hf⟩ := cut_of_filter hs
  obtain ⟨g, hg, hfound, hgk, hgX, -, halt, -⟩ := h.fragment_at hX
  obtain ⟨x, hx, hlt⟩ := halt hk
  have hown : w.layout.ownerOf f.block = μ := by simpa using hf
  refine ⟨_, Layout.mem_alternatives.2 ⟨f.block, g, hg, hgk.trans hk, rfl⟩, rfl, hown, ?_,
    ⟨f.branch, x.1, x.2⟩, ?_, rfl, hlt⟩
  · refine (show w.layout.scopeIn g.parents _ = _ from h.scopeIn_eq hfound.parents _).trans ?_
    rw [scopeAt, ← hS, ← hgX, ← hown]
    rfl
  · exact List.mem_map.2 ⟨(x, f.branch), List.mk_mem_zipIdx_iff_getElem?.2 hx, rfl⟩

theorem Tracks.loop_scope {n : Nat} {μ : MethodId} {S T : Scope} {f : Frame}
    (hs : scopeAt es w n μ = S ++ f :: T) (hk : f.kind = .loop) :
    f.branch = 0 ∧ ∃ l ∈ w.layout.loops, l.id = f.block ∧ l.method = μ ∧ l.scope = S := by
  obtain ⟨X, Y, hX, hS, hf⟩ := cut_of_filter hs
  obtain ⟨g, hg, hfound, hgk, hgX, -, -, hloop⟩ := h.fragment_at hX
  have hown : w.layout.ownerOf f.block = μ := by simpa using hf
  refine ⟨hloop hk, _, Layout.mem_loops.2 ⟨f.block, g, hg, hgk.trans hk, rfl⟩, rfl, hown, ?_⟩
  refine (show w.layout.scopeIn g.parents _ = _ from h.scopeIn_eq hfound.parents _).trans ?_
  rw [scopeAt, ← hS, ← hgX, ← hown]
  rfl

/-- An alternative stands in the scope at its position, and each of its branches starts there. -/
theorem Tracks.alternative {b : Alternative} (hb : b ∈ w.layout.alternatives) :
    b.scope = scopeAt es w b.position b.method ∧
      (b.branches ≠ [] ∧ b.branches.map (·.index) = List.range b.branches.length) ∧
      ∀ br ∈ b.branches, b.position ≤ br.position ∧
        (∃ line, es[br.position]? = some (.alt line br.guard) ∨
          es[br.position]? = some (.orElse line br.guard)) ∧
        scopeAt es w (br.position + 1) b.method = b.scope ++ [⟨.alt, b.id, br.index⟩] := by
  obtain ⟨id, g, hg, hk, rfl⟩ := Layout.mem_alternatives.1 hb
  have hfound := h.found_at hg
  have hscope := h.scopeIn_eq hfound.parents (w.layout.ownerOf id)
  refine ⟨hscope, ⟨fun hnil => ?_, ?_⟩, fun br hbr => ?_⟩
  · have hl : g.guards.length = g.branch + 1 := hfound.alt hk
    have := congrArg List.length hnil
    simp only [List.length_map, List.length_zipIdx, List.length_nil] at this
    omega
  · simp only [List.map_map, List.length_map, List.length_zipIdx]
    have := List.zipIdx_map_snd 0 g.guards
    rw [← List.range_eq_range'] at this
    rw [← this]
    rfl
  · obtain ⟨⟨x, i⟩, hx, rfl⟩ := List.mem_map.1 hbr
    have hx' := List.mk_mem_zipIdx_iff_getElem?.1 hx
    obtain ⟨hpos, -, hframes⟩ := hfound.starts i x hx'
    refine ⟨hpos, hfound.guarded x (List.mem_of_getElem? hx'), ?_⟩
    simp only
    rw [show w.layout.scopeIn g.parents (w.layout.ownerOf id) =
      scopeAt es w g.position (w.layout.ownerOf id) from hscope, scopeAt, scopeAt, hframes,
      List.filter_append]
    simp [Fragment.unowned]

end Walk

end Lifeline.Model
