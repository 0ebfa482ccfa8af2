import Lifeline.Model.Walk
import Lifeline.Proofs.Diagram.Reading

/-!
# What the walk finds

`Walk.Follows es w`: the walk `w` stands behind the elements `es`. Its open blocks are those of the
stack machine (`Blocks`), every message it found stands at its place with the blocks around it
(`Placed`), and every frame around a position belongs to a block that the walk found
(`Follows.chain`). Each element keeps it (`Follows.step`), so a walk over a whole diagram has it
(`follows_of_run`).
-/

namespace Lifeline.Model

/-- The block and the branch of a frame. -/
def Frame.enclosure (f : Frame) : Enclosure := { block := f.block, branch := f.branch }

theorem framesAt_append {es : List Element} {n : Nat} (e : Element) (h : n ≤ es.length) :
    framesAt (es ++ [e]) n = framesAt es n := by
  rw [framesAt, framesAt, List.take_append_of_le_length h]

theorem framesAt_length (es : List Element) :
    framesAt es es.length = (Blocks.after es).around.reverse := by
  rw [framesAt, List.take_length]

theorem framesAt_succ (es : List Element) (e : Element) :
    framesAt (es ++ [e]) (es.length + 1) = ((Blocks.after es).step e).around.reverse := by
  rw [framesAt, List.take_of_length_le (by simp), Blocks.after_append]

/-- The message `e` stands at the place `p`. -/
def Placed (es : List Element) (p : Place) (e : Element) : Prop :=
  es[p.position]? = some e ∧ p.enclosing = (framesAt es p.position).map Frame.enclosure

theorem Placed.append {es : List Element} {p : Place} {e : Element} (h : Placed es p e)
    (e' : Element) : Placed (es ++ [e']) p e := by
  have hl := (List.getElem?_eq_some_iff.1 h.1).1
  refine ⟨?_, by rw [framesAt_append _ hl.le]; exact h.2⟩
  rw [List.getElem?_append_left hl]
  exact h.1

/-- What the walk knows of the block with the number `id`. -/
structure Fragment.Found (es : List Element) (id : Nat) (g : Fragment) : Prop where
  inside : g.position < es.length
  parents : g.parents = (framesAt es g.position).map Frame.enclosure
  starts : ∀ (i : Nat) x, g.guards[i]? = some x → g.position ≤ x.2 ∧ x.2 < es.length ∧
    framesAt es (x.2 + 1) = framesAt es g.position ++ [⟨.alt, id, i⟩]
  guarded : ∀ x ∈ g.guards, ∃ line,
    es[x.2]? = some (.alt line x.1) ∨ es[x.2]? = some (.orElse line x.1)
  alt : g.kind = .alt → g.guards.length = g.branch + 1
  loop : g.kind = .loop → g.branch = 0

/-- A block that was found earlier: only branches and the owner may have been added. -/
structure Fragment.Grown (g g' : Fragment) : Prop where
  kind : g'.kind = g.kind
  position : g'.position = g.position
  guards : g.guards <+: g'.guards

theorem Fragment.Grown.refl (g : Fragment) : g.Grown g := ⟨rfl, rfl, List.prefix_rfl⟩

theorem Fragment.Found.append {es : List Element} {id : Nat} {g : Fragment}
    (h : g.Found es id) (e : Element) : g.Found (es ++ [e]) id where
  inside := by
    have := h.inside
    rw [List.length_append]
    omega
  parents := by rw [framesAt_append _ h.inside.le]; exact h.parents
  starts i x hx := by
    obtain ⟨hp, hl, hf⟩ := h.starts i x hx
    rw [framesAt_append _ hl, framesAt_append _ h.inside.le, List.length_append]
    exact ⟨hp, by omega, hf⟩
  guarded x hx := by
    obtain ⟨i, hi⟩ := List.getElem?_of_mem hx
    have hl := (h.starts i x hi).2.1
    rw [List.getElem?_append_left hl]
    exact h.guarded x hx
  alt := h.alt
  loop := h.loop

/-- A block that the next element opens. An alternative has its first branch from the start. -/
theorem Fragment.Found.opened {es : List Element} {e : Element} {id : Nat} {g : Fragment}
    (hpos : g.position = es.length)
    (hparents : g.parents = (framesAt es es.length).map Frame.enclosure) (hbranch : g.branch = 0)
    (hguards : ∀ x ∈ g.guards, x.2 = es.length ∧ ∃ line, e = .alt line x.1)
    (halt : g.kind = .alt → g.guards.length = 1) (hloop : g.kind = .loop → g.guards = [])
    (hend : framesAt (es ++ [e]) (es.length + 1) = framesAt es es.length ++ [⟨g.kind, id, 0⟩]) :
    g.Found (es ++ [e]) id where
  inside := by simp [hpos]
  parents := by rw [hpos, framesAt_append _ (Nat.le_refl _), hparents]
  starts i x hx := by
    have hi := (List.getElem?_eq_some_iff.1 hx).1
    have hk : g.kind = .alt := by
      cases hk : g.kind with
      | alt => rfl
      | loop => simp [hloop hk] at hi
    have hl := halt hk
    obtain rfl : i = 0 := by omega
    rw [hpos, (hguards x (List.mem_of_getElem? hx)).1, hend, hk, framesAt_append _ (Nat.le_refl _)]
    simp
  guarded x hx := by
    obtain ⟨hx2, line, rfl⟩ := hguards x hx
    exact ⟨line, .inl (by rw [hx2, List.getElem?_concat_length])⟩
  alt hk := by rw [hbranch, halt hk]
  loop _ := hbranch

/-- The block with one more branch, which starts at the position `n`. -/
def Fragment.branched (g : Fragment) (n : Nat) (guard : Option String) : Fragment :=
  { g with guards := g.guards ++ [(guard, n)], branch := g.branch + 1 }

theorem Fragment.grown_branched (g : Fragment) (n : Nat) (guard : Option String) :
    g.Grown (g.branched n guard) :=
  ⟨rfl, rfl, List.prefix_append _ _⟩

/-- The branch that an alternative is in comes last. -/
theorem Fragment.getElem?_branched {g : Fragment} {b n : Nat} {guard : Option String}
    (hb : g.guards.length = b) : (g.branched n guard).guards[b]? = some (guard, n) := by
  rw [← hb]
  exact List.getElem?_concat_length ..

/-- A block that the next element gives a further branch. -/
theorem Fragment.Found.branched {es : List Element} {line : Int} {guard : Option String} {id : Nat}
    {g : Fragment} (h : g.Found es id) (hk : g.kind = .alt)
    (hend : framesAt (es ++ [.orElse line guard]) (es.length + 1) =
      framesAt es g.position ++ [⟨.alt, id, g.branch + 1⟩]) :
    (g.branched es.length guard).Found (es ++ [.orElse line guard]) id := by
  have hl := h.alt hk
  have old := h.append (.orElse line guard)
  refine ⟨old.inside, old.parents, fun i x hx => ?_, fun x hx => ?_, fun _ => ?_, fun hg => ?_⟩
  · rcases Nat.lt_or_ge i g.guards.length with hi | hi
    · simp only [Fragment.branched, List.getElem?_append_left hi] at hx
      exact old.starts i x hx
    · obtain rfl : i = g.guards.length := by
        have := (List.getElem?_eq_some_iff.1 hx).1
        simp only [Fragment.branched, List.length_append, List.length_singleton] at this
        omega
      rw [Fragment.getElem?_branched rfl] at hx
      obtain rfl := Option.some.inj hx
      refine ⟨h.inside.le, by simp, ?_⟩
      rw [hend, hl, Fragment.branched, framesAt_append _ h.inside.le]
  · rcases List.mem_append.1 hx with hx | hx
    · exact old.guarded x hx
    · rw [List.mem_singleton.1 hx]
      exact ⟨line, .inr (List.getElem?_concat_length ..)⟩
  · simp [Fragment.branched, hl]
  · rw [(g.grown_branched _ _).kind, hk] at hg
    cases hg

/-- What a frame around the position `n` says of the block it names, among the blocks `fs`. -/
def Frame.Known (es : List Element) (fs : List Fragment) (n : Nat) (pre : List Frame)
    (f : Frame) : Prop :=
  ∃ g : Fragment, fs[f.block]? = some g ∧ g.kind = f.kind ∧ framesAt es g.position = pre ∧
    g.position < n ∧ (f.kind = .alt → ∃ x, g.guards[f.branch]? = some x ∧ x.2 < n) ∧
    (f.kind = .loop → f.branch = 0)

theorem Frame.Known.append {es : List Element} {fs fs' : List Fragment} {n : Nat}
    {pre : List Frame} {f : Frame} (h : f.Known es fs n pre) (hn : n ≤ es.length) (e : Element)
    (hg : ∀ (id : Nat) (g : Fragment), fs[id]? = some g →
      ∃ g' : Fragment, fs'[id]? = some g' ∧ g.Grown g') :
    f.Known (es ++ [e]) fs' n pre := by
  obtain ⟨g, hid, hk, hpre, hpos, halt, hloop⟩ := h
  obtain ⟨g', hid', hgr⟩ := hg _ g hid
  refine ⟨g', hid', hgr.kind.trans hk, ?_, by rw [hgr.position]; exact hpos, fun hf => ?_, hloop⟩
  · rw [hgr.position, framesAt_append _ (by omega)]
    exact hpre
  · obtain ⟨x, hx, hlt⟩ := halt hf
    obtain ⟨more, hmore⟩ := hgr.guards
    refine ⟨x, ?_, hlt⟩
    rw [← hmore, List.getElem?_append_left (List.getElem?_eq_some_iff.1 hx).1]
    exact hx

theorem Frame.Known.later {es : List Element} {fs : List Fragment} {n n' : Nat}
    {pre : List Frame} {f : Frame} (h : f.Known es fs n pre) (hn : n ≤ n') :
    f.Known es fs n' pre := by
  obtain ⟨g, hid, hk, hpre, hpos, halt, hloop⟩ := h
  refine ⟨g, hid, hk, hpre, by omega, fun hf => ?_, hloop⟩
  obtain ⟨x, hx, hlt⟩ := halt hf
  exact ⟨x, hx, by omega⟩

/-- The block without its owner. -/
def Fragment.unowned (g : Fragment) : Fragment := { g with owner := none }

namespace Walk

/-- The blocks without their owners. -/
def shape (w : Walk) : List Fragment := w.fragments.map Fragment.unowned

theorem length_shape (w : Walk) : w.shape.length = w.fragments.length := List.length_map ..

theorem shape_openBlock (w : Walk) (f : Fragment) :
    (w.openBlock f).shape = w.shape ++ [{ f with parents := w.enclosing, owner := none }] := by
  simp [shape, openBlock, Fragment.unowned]

theorem shape_branch {w w' : Walk} {n : Nat} {guard : Option String} {id : Nat} {ids : List Nat}
    (ho : w.openBlocks = id :: ids) (hw : w.branch n guard = .ok w') :
    w'.openBlocks = id :: ids ∧ w'.shape = w.shape.modify id (·.branched n guard) := by
  rw [Walk.branch, ho] at hw
  obtain rfl := Except.ok.inj hw
  refine ⟨rfl, List.ext_getElem? fun i => ?_⟩
  rw [shape, shape, List.getElem?_map, List.getElem?_modify, List.getElem?_modify,
    List.getElem?_map]
  cases w.fragments[i]? with
  | none => rfl
  | some g => by_cases hi : id = i <;> simp [hi, Fragment.unowned, Fragment.branched]

theorem shape_closeBlock {w w' : Walk} {id : Nat} {ids : List Nat} (ho : w.openBlocks = id :: ids)
    (hw : w.closeBlock = .ok w') : w'.openBlocks = ids ∧ w'.shape = w.shape := by
  rw [Walk.closeBlock, ho] at hw
  obtain rfl := Except.ok.inj hw
  exact ⟨rfl, rfl⟩

/-- The blocks of `w` are still there in `w'`. -/
def Grew (w w' : Walk) : Prop :=
  ∀ (id : Nat) (g : Fragment), w.shape[id]? = some g →
    ∃ g' : Fragment, w'.shape[id]? = some g' ∧ g.Grown g'

theorem Grew.of_eq {w w' : Walk} (hs : w'.shape = w.shape) : w.Grew w' :=
  fun _ g hg => ⟨g, hs ▸ hg, .refl g⟩

theorem grew_openBlock (w : Walk) (f : Fragment) : w.Grew (w.openBlock f) := fun id g hid => by
  refine ⟨g, ?_, .refl g⟩
  rw [shape_openBlock, List.getElem?_append_left (List.getElem?_eq_some_iff.1 hid).1, hid]

theorem grew_branch {w w' : Walk} {n : Nat} {guard : Option String} {id : Nat}
    (hs : w'.shape = w.shape.modify id (·.branched n guard)) : w.Grew w' := fun i g hg => by
  rw [hs, List.getElem?_modify, hg]
  by_cases hi : id = i
  · exact ⟨g.branched n guard, by simp [hi], g.grown_branched n guard⟩
  · exact ⟨g, by simp [hi], .refl g⟩

/-! ## Blocks -/

/-- The blocks of a walk that stands behind the elements `es`. -/
structure Tracks (es : List Element) (w : Walk) : Prop where
  openBlocks : w.openBlocks = (Blocks.after es).around.map (·.block)
  count : w.shape.length = (Blocks.after es).count
  current : ∀ f ∈ (Blocks.after es).around, (w.shape[f.block]?).map (·.branch) = some f.branch
  found : ∀ (id : Nat) (g : Fragment), w.shape[id]? = some g → g.Found es id
  chain : ∀ n ≤ es.length, ∀ pre f suf, framesAt es n = pre ++ f :: suf →
    f.Known es w.shape n pre

theorem tracks_start : Tracks [] {} where
  openBlocks := rfl
  count := rfl
  current := by simp
  found := by simp [shape]
  chain n hn pre f suf h := by
    simp [framesAt] at h

variable {es : List Element} {w w' : Walk} {e : Element}

/-- The blocks around the present place are those of the stack machine. -/
theorem Tracks.enclosing (h : Tracks es w) :
    w.enclosing = (framesAt es es.length).map Frame.enclosure := by
  rw [Walk.enclosing, h.openBlocks, framesAt_length, ← List.map_reverse, List.map_map]
  refine List.map_congr_left fun f hf => ?_
  have hc := h.current f (List.mem_reverse.1 hf)
  simp only [shape, List.getElem?_map, Option.map_map] at hc
  simp only [Function.comp_apply, Frame.enclosure, Enclosure.mk.injEq, true_and]
  cases hg : w.fragments[f.block]? with
  | none => simp [hg] at hc
  | some g => simpa [hg, Fragment.unowned] using hc

theorem Tracks.placeOf (h : Tracks es w) (m : MethodId) :
    Placed (es ++ [e]) (w.placeOf es.length m) e := by
  refine ⟨by simp [Walk.placeOf], ?_⟩
  rw [Walk.placeOf, h.enclosing]
  simp only
  rw [framesAt_append _ (Nat.le_refl _)]

/-- What the blocks around the end say when one more element has come. -/
theorem Tracks.known (h : Tracks es w) (hg : w.Grew w') {pre suf : List Frame} {f : Frame}
    (hf : framesAt es es.length = pre ++ f :: suf) :
    f.Known (es ++ [e]) w'.shape (es.length + 1) pre :=
  ((h.chain _ (Nat.le_refl _) pre f suf hf).append (Nat.le_refl _) e hg).later (Nat.le_succ _)

/-- The same where the innermost blocks give way to `x`. -/
theorem Tracks.known_concat (h : Tracks es w) (hg : w.Grew w') {around out : List Frame} {x : Frame}
    (ho : framesAt es es.length = around ++ out)
    (hx : x.Known (es ++ [e]) w'.shape (es.length + 1) around) {pre suf : List Frame} {f : Frame}
    (hf : around ++ [x] = pre ++ f :: suf) : f.Known (es ++ [e]) w'.shape (es.length + 1) pre := by
  rcases suf.eq_nil_or_concat' with rfl | ⟨suf, l, rfl⟩
  · obtain ⟨rfl, hl⟩ := List.append_inj' hf rfl
    obtain rfl := List.singleton_inj.1 hl
    exact hx
  · rw [← List.cons_append, ← List.append_assoc] at hf
    rw [(List.append_inj' hf rfl).1, List.append_assoc, List.cons_append] at ho
    exact h.known hg ho

/-- One more element. Only the frames around the new end are left to be known. -/
theorem Tracks.extend (h : Tracks es w) (hg : w.Grew w')
    (hopen : w'.openBlocks = ((Blocks.after es).step e).around.map (·.block))
    (hcount : w'.shape.length = ((Blocks.after es).step e).count)
    (hcurrent : ∀ f ∈ ((Blocks.after es).step e).around,
      (w'.shape[f.block]?).map (·.branch) = some f.branch)
    (hfound : ∀ (id : Nat) (g : Fragment), w'.shape[id]? = some g → g.Found (es ++ [e]) id)
    (hchain : ∀ pre f suf, framesAt (es ++ [e]) (es.length + 1) = pre ++ f :: suf →
      f.Known (es ++ [e]) w'.shape (es.length + 1) pre) :
    Tracks (es ++ [e]) w' := by
  refine ⟨by rwa [Blocks.after_append], by rwa [Blocks.after_append],
    by rwa [Blocks.after_append], hfound, fun n hn pre f suf hf => ?_⟩
  rcases Nat.lt_or_ge es.length n with hl | hl
  · obtain rfl : n = es.length + 1 := by
      rw [List.length_append, List.length_singleton] at hn
      omega
    exact hchain pre f suf hf
  · rw [framesAt_append _ hl] at hf
    exact (h.chain n hl pre f suf hf).append hl e hg

/-- An element after which the open blocks are as before. -/
theorem Tracks.message (h : Tracks es w) (he : ∀ b, Blocks.step b e = b)
    (ho : w'.openBlocks = w.openBlocks) (hs : w'.shape = w.shape) : Tracks (es ++ [e]) w' := by
  have hg : w.Grew w' := .of_eq hs
  refine h.extend hg ?_ ?_ ?_ (fun id g hid => ?_) (fun pre f suf hf => ?_)
  · rw [ho, he, h.openBlocks]
  · rw [hs, he, h.count]
  · rw [hs, he]
    exact h.current
  · rw [hs] at hid
    exact (h.found id g hid).append e
  · rw [framesAt_succ, he, ← framesAt_length] at hf
    exact h.known hg hf

/-- A block that is opened. An alternative has its first branch from the start. -/
theorem Tracks.opened (h : Tracks es w) (f : Fragment)
    (he : (Blocks.after es).step e = (Blocks.after es).opened f.kind)
    (hpos : f.position = es.length) (hbranch : f.branch = 0)
    (hguards : ∀ x ∈ f.guards, x.2 = es.length ∧ ∃ line, e = .alt line x.1)
    (halt : f.kind = .alt → f.guards.length = 1) (hloop : f.kind = .loop → f.guards = []) :
    Tracks (es ++ [e]) (w.openBlock f) := by
  set f' : Fragment := { f with parents := w.enclosing, owner := none } with hf'
  have hshape : (w.openBlock f).shape = w.shape ++ [f'] := shape_openBlock w f
  have hlast : (w.openBlock f).shape[(Blocks.after es).count]? = some f' := by
    rw [hshape, ← h.count, List.getElem?_concat_length]
  have hend : framesAt (es ++ [e]) (es.length + 1) =
      framesAt es es.length ++ [⟨f'.kind, (Blocks.after es).count, 0⟩] := by
    rw [framesAt_succ, he, framesAt_length]
    simp [Blocks.opened, hf']
  have hknown : Frame.Known (es ++ [e]) (w.openBlock f).shape (es.length + 1)
      (framesAt es es.length) ⟨f'.kind, (Blocks.after es).count, 0⟩ := by
    refine ⟨f', hlast, rfl, ?_, by simp [hf', hpos], fun hk => ?_, fun _ => rfl⟩
    · simp only [hf', hpos, framesAt_append _ (Nat.le_refl _)]
    · obtain ⟨x, hx⟩ := List.length_eq_one_iff.1 (halt hk)
      refine ⟨x, by simp [hf', hx], ?_⟩
      rw [(hguards x (by simp [hx])).1]
      exact Nat.lt_succ_self _
  refine h.extend (grew_openBlock w f) ?_ ?_ (fun g hmem => ?_) (fun id g hid => ?_)
    (fun pre g suf hgs => ?_)
  · rw [he]
    simp [Walk.openBlock, Blocks.opened, ← h.count, length_shape, h.openBlocks]
  · rw [hshape, he, List.length_append, h.count]
    rfl
  · rw [he] at hmem
    rcases List.mem_cons.1 hmem with rfl | hmem
    · rw [hlast]
      simp [hf', hbranch]
    · rw [hshape, List.getElem?_append_left]
      · exact h.current g hmem
      · rw [h.count]
        exact (Blocks.after_ok es).counted g hmem
  · rw [hshape] at hid
    rcases Nat.lt_or_ge id w.shape.length with hl | hl
    · rw [List.getElem?_append_left hl] at hid
      exact (h.found id g hid).append e
    · obtain rfl : id = w.shape.length := by
        have := (List.getElem?_eq_some_iff.1 hid).1
        rw [List.length_append, List.length_singleton] at this
        omega
      rw [List.getElem?_concat_length] at hid
      obtain rfl := Option.some.inj hid
      rw [← h.count] at hend
      exact .opened hpos h.enclosing hbranch hguards halt hloop hend
  · rw [hend] at hgs
    exact h.known_concat (grew_openBlock w f) (List.append_nil _).symm hknown hgs

/-- A further branch of the innermost block, which is an alternative. -/
theorem Tracks.branched (h : Tracks es w) {line : Int} {guard : Option String}
    {f : Frame} {rest : List Frame} (hr : (Blocks.after es).around = f :: rest)
    (hk : f.kind = .alt) (hw : w.branch es.length guard = .ok w') :
    Tracks (es ++ [.orElse line guard]) w' := by
  have he : (Blocks.after es).step (.orElse line guard) = (Blocks.after es).branched := rfl
  have hb : (Blocks.after es).branched.around = { f with branch := f.branch + 1 } :: rest := by
    simp [Blocks.branched, hr]
  have hframes : framesAt es es.length = rest.reverse ++ [f] := by
    rw [framesAt_length, hr, List.reverse_cons]
  obtain ⟨g, hid, hgk, hpre, hpos, -, -⟩ := h.chain _ (Nat.le_refl _) _ f [] hframes
  have hfound := h.found _ g hid
  have hgb : g.branch = f.branch := by
    have := h.current f (by rw [hr]; exact .head _)
    rw [hid] at this
    simpa using this
  have hgl : g.guards.length = f.branch + 1 := by
    rw [hfound.alt (hgk.trans hk), hgb]
  have hob := h.openBlocks
  rw [hr, List.map_cons] at hob
  obtain ⟨hopen, hshape⟩ := shape_branch hob hw
  have hat : w'.shape[f.block]? = some (g.branched es.length guard) := by
    rw [hshape, List.getElem?_modify, hid]
    simp
  have hother : ∀ id, id ≠ f.block → w'.shape[id]? = w.shape[id]? := fun id hne => by
    rw [hshape, List.getElem?_modify]
    simp [hne.symm]
  have hend : framesAt (es ++ [.orElse line guard]) (es.length + 1) =
      rest.reverse ++ [{ f with branch := f.branch + 1 }] := by
    rw [framesAt_succ, he, hb, List.reverse_cons]
  have hknown : Frame.Known (es ++ [.orElse line guard]) w'.shape (es.length + 1) rest.reverse
      { f with branch := f.branch + 1 } := by
    refine ⟨_, hat, hgk, ?_, Nat.lt_succ_of_lt hpos, fun _ => ?_, fun hl => ?_⟩
    · rw [(g.grown_branched _ _).position, framesAt_append _ hpos.le]
      exact hpre
    · exact ⟨_, Fragment.getElem?_branched hgl, Nat.lt_succ_self _⟩
    · rw [hk] at hl
      cases hl
  refine h.extend (grew_branch hshape) ?_ ?_ (fun x hx => ?_) (fun id x hx => ?_)
    (fun pre x suf hxs => ?_)
  · rw [he, hb, hopen]
    rfl
  · rw [he, hshape, List.length_modify, h.count]
    rfl
  · rw [he, hb] at hx
    rcases List.mem_cons.1 hx with rfl | hx
    · simp [hat, Fragment.branched, hgb]
    · have hs := (Blocks.after_ok es).sorted
      rw [hr] at hs
      rw [hother _ (Nat.ne_of_lt ((List.pairwise_cons.1 hs).1 x hx))]
      exact h.current x (by rw [hr]; exact .tail _ hx)
  · by_cases hif : id = f.block
    · subst hif
      obtain rfl := Option.some.inj (hat.symm.trans hx)
      refine hfound.branched (hgk.trans hk) ?_
      rw [hend, hpre, hgb, ← hk]
    · rw [hother id hif] at hx
      exact (h.found id x hx).append _
  · rw [hend] at hxs
    exact h.known_concat (grew_branch hshape) hframes hknown hxs

/-- The innermost block is closed. -/
theorem Tracks.closed (h : Tracks es w)
    (he : (Blocks.after es).step e = (Blocks.after es).closed) (hw : w.closeBlock = .ok w') :
    Tracks (es ++ [e]) w' := by
  obtain ⟨f, rest, hr⟩ : ∃ f rest, (Blocks.after es).around = f :: rest := by
    cases hr : (Blocks.after es).around with
    | nil => simp [Walk.closeBlock, h.openBlocks, hr] at hw
    | cons f rest => exact ⟨f, rest, rfl⟩
  have hob := h.openBlocks
  rw [hr, List.map_cons] at hob
  obtain ⟨hopen, hs⟩ := shape_closeBlock hob hw
  have hb : (Blocks.after es).closed.around = rest := by simp [Blocks.closed, hr]
  have hg : w.Grew w' := .of_eq hs
  refine h.extend hg ?_ ?_ (fun g hgm => ?_) (fun id g hid => ?_) (fun pre g suf hgs => ?_)
  · rw [he, hb, hopen]
  · rw [he, hs, h.count]
    rfl
  · rw [he, hb] at hgm
    rw [hs]
    exact h.current g (by rw [hr]; exact .tail _ hgm)
  · rw [hs] at hid
    exact (h.found id g hid).append e
  · rw [framesAt_succ, he, hb] at hgs
    have hcut : framesAt es es.length = pre ++ g :: (suf ++ [f]) := by
      rw [framesAt_length, hr, List.reverse_cons, hgs]
      simp
    exact h.known hg hcut

end Walk

end Lifeline.Model
