import Lifeline.Proofs.Model.Walk
import Mathlib.Data.List.Nodup

/-!
# The messages of a walk

`Walk.Hears es w`: the walk `w` behind the elements `es` has their calls, and every message that it
keeps stands at its place (`Listed`), in the order of the elements. A reply belongs to the method
that makes the call. The participants are distinct, and both ends of a call are among them.

**`Walk.follows_of_run`**: a walk over a sound diagram keeps track of its blocks and hears its
messages. **`Walk.exists_run`**: such a walk never fails.
-/

namespace Lifeline.Model

/-! ## Lists of messages -/

/-- Messages with their places, in the order of the elements `es`. -/
structure Listed {α : Type} (es : List Element) (element : α → Element)
    (xs : List (α × Place)) : Prop where
  placed : ∀ x ∈ xs, Placed es x.2 (element x.1)
  ordered : xs.Pairwise fun x y => x.2.position < y.2.position

section

variable {α : Type} {es : List Element} {element : α → Element} {xs : List (α × Place)}

theorem listed_nil : Listed es element [] := ⟨by simp, .nil⟩

theorem Listed.append (h : Listed es element xs) (e : Element) :
    Listed (es ++ [e]) element xs :=
  ⟨fun x hx => (h.placed x hx).append e, h.ordered⟩

theorem Listed.filter (h : Listed es element xs) (p : α × Place → Bool) :
    Listed es element (xs.filter p) :=
  ⟨fun x hx => h.placed x (List.mem_filter.1 hx).1, h.ordered.sublist List.filter_sublist⟩

theorem Listed.position_lt (h : Listed es element xs) {x : α × Place} (hx : x ∈ xs) :
    x.2.position < es.length :=
  (List.getElem?_eq_some_iff.1 (h.placed x hx).1).1

/-- The message at the end of the elements. -/
theorem Listed.snoc (h : Listed es element xs) {a : α} {p : Place}
    (hp : Placed (es ++ [element a]) p (element a)) (hpos : p.position = es.length) :
    Listed (es ++ [element a]) element (xs ++ [(a, p)]) := by
  refine ⟨fun x hx => ?_, List.pairwise_append.2 ⟨h.ordered, List.pairwise_singleton _ _,
    fun x hx y hy => ?_⟩⟩
  · rcases List.mem_append.1 hx with hx | hx
    · exact (h.placed x hx).append _
    · rw [List.mem_singleton.1 hx]
      exact hp
  · rw [List.mem_singleton.1 hy, hpos]
    exact h.position_lt hx

end

namespace Walk

@[simp] theorem shape_note (w : Walk) (name : String) : (w.note name).shape = w.shape := by
  unfold note
  split <;> rfl

@[simp] theorem openBlocks_note (w : Walk) (name : String) :
    (w.note name).openBlocks = w.openBlocks := by
  unfold note
  split <;> rfl

@[simp] theorem shape_own (w : Walk) (m : MethodId) : (w.own m).shape = w.shape := by
  simp only [shape, own, List.map_map]
  apply List.ext_getElem?
  intro i
  simp only [List.getElem?_map, List.getElem?_zipIdx, Option.map_map]
  cases w.fragments[i]? with
  | none => rfl
  | some f => by_cases hi : i ∈ w.openBlocks <;> simp [hi, Fragment.unowned]

/-- What a walk behind the elements `es` knows of their messages. -/
structure Hears (es : List Element) (w : Walk) : Prop where
  calls : w.calls.map (·.1) = (Diagram.mk es).calls
  call : Listed es .call w.calls
  callOf : ∀ x ∈ w.calls, x.2.method = x.1.parent
  reply : Listed es .reply w.replies
  replyOnce : (w.replies.map (·.1.call)).Nodup
  replyOf : ∀ x ∈ w.replies, ∃ c ∈ (Diagram.mk es).calls, c.id = x.1.call ∧ c.parent = x.2.method
  raise : Listed es .raise w.raises
  raiseOf : ∀ x ∈ w.raises, x.2.method = x.1.parent
  result : Listed es .result w.results
  resultOf : ∀ x ∈ w.results, x.2.method = x.1.parent
  distinct : w.participants.Nodup
  ends : ∀ c ∈ (Diagram.mk es).calls, c.source ∈ w.participants ∧ c.target ∈ w.participants

theorem hears_start : Hears [] {} :=
  ⟨rfl, listed_nil, by simp, listed_nil, .nil, by simp, listed_nil, by simp, listed_nil, by simp,
    .nil, by simp [Diagram.calls]⟩

variable {es : List Element} {w w' : Walk} {e : Element}

theorem Hears.mem_calls (h : Hears es w) {x : Call × Place} (hx : x ∈ w.calls) :
    x.1 ∈ (Diagram.mk es).calls := by
  rw [← h.calls]
  exact List.mem_map_of_mem hx

theorem Hears.exists_call (h : Hears es w) {c : Call} (hc : c ∈ (Diagram.mk es).calls) :
    ∃ x ∈ w.calls, x.1 = c := by
  rw [← h.calls] at hc
  exact List.mem_map.1 hc

theorem note_participants (w : Walk) (name : String) :
    name ∈ (w.note name).participants ∧ w.participants ⊆ (w.note name).participants := by
  unfold note
  split
  · rename_i h
    exact ⟨by simpa using h, fun _ ha => ha⟩
  · exact ⟨by simp, List.subset_append_left _ _⟩

theorem nodup_note (h : w.participants.Nodup) (name : String) :
    (w.note name).participants.Nodup := by
  unfold note
  split
  · exact h
  · refine List.nodup_append.2 ⟨h, List.nodup_singleton _, fun a ha b hb => ?_⟩
    rintro rfl
    simp_all

/-- The messages of a walk are kept while its participants grow. -/
theorem Hears.keep (h : Hears es w) (he : (Diagram.mk (es ++ [e])).calls = (Diagram.mk es).calls)
    (hc : w'.calls = w.calls) (hr : w'.replies = w.replies) (ht : w'.raises = w.raises)
    (hs : w'.results = w.results) (hd : w'.participants.Nodup)
    (hp : w.participants ⊆ w'.participants) : Hears (es ++ [e]) w' where
  calls := by rw [hc, he, h.calls]
  call := hc ▸ h.call.append e
  callOf := hc ▸ h.callOf
  reply := hr ▸ h.reply.append e
  replyOnce := hr ▸ h.replyOnce
  replyOf := by
    rw [hr, he]
    exact h.replyOf
  raise := ht ▸ h.raise.append e
  raiseOf := ht ▸ h.raiseOf
  result := hs ▸ h.result.append e
  resultOf := hs ▸ h.resultOf
  distinct := hd
  ends c hc := by
    rw [he] at hc
    exact ⟨hp (h.ends c hc).1, hp (h.ends c hc).2⟩

/-- The caller of a call that has been heard is the method that makes it. -/
theorem Hears.callerOf (h : Hears es w) {call : Int}
    (ha : ∃ c ∈ (Diagram.mk es).calls, c.id = call) :
    ∃ c ∈ (Diagram.mk es).calls, c.id = call ∧ c.parent = w.callerOf call := by
  obtain ⟨c, hc, hid⟩ := ha
  rw [← h.calls] at hc
  obtain ⟨x, hx, rfl⟩ := List.mem_map.1 hc
  unfold Walk.callerOf
  cases hf : w.calls.reverse.find? (·.1.id == call) with
  | none =>
    have := List.find?_eq_none.1 hf x (List.mem_reverse.2 hx)
    simp [hid] at this
  | some y =>
    have hy := List.mem_reverse.1 (List.mem_of_find?_eq_some hf)
    refine ⟨y.1, ?_, by simpa using List.find?_some hf, rfl⟩
    rw [← h.calls]
    exact List.mem_map_of_mem hy

/-- Keeping track of the blocks and hearing the messages. -/
structure Follows (es : List Element) (w : Walk) : Prop where
  tracks : Tracks es w
  hears : Hears es w

theorem follows_start : Follows [] {} := ⟨tracks_start, hears_start⟩

/-- A participant that comes up changes neither the blocks nor the messages. -/
theorem Follows.note (h : Follows es w) (name : String) : Follows es (w.note name) := by
  obtain ⟨ht, h⟩ := h
  have hd := nodup_note h.distinct name
  have hp := (note_participants w name).2
  obtain ⟨ps, hps⟩ : ∃ ps, w.note name = { w with participants := ps } := by
    unfold Walk.note
    split
    · exact ⟨_, rfl⟩
    · exact ⟨_, rfl⟩
  rw [hps] at hd hp ⊢
  exact ⟨⟨ht.openBlocks, ht.count, ht.current, ht.found, ht.chain⟩, ⟨h.calls, h.call, h.callOf,
    h.reply, h.replyOnce, h.replyOf, h.raise, h.raiseOf, h.result, h.resultOf, hd,
    fun c hc => ⟨hp (h.ends c hc).1, hp (h.ends c hc).2⟩⟩⟩

theorem Follows.participant (h : Follows es w) (line : Int) (name : String) :
    Follows (es ++ [.participant line name]) (w.note name) := by
  have hu := h.note name
  exact ⟨hu.tracks.message (fun _ => rfl) rfl rfl, hu.hears.keep (by simp [Diagram.calls_append])
    rfl rfl rfl rfl hu.hears.distinct (List.Subset.refl _)⟩

theorem Follows.entry (h : Follows es w) (x : Entry) :
    Follows (es ++ [.entry x]) (w.enter x) := by
  refine ⟨h.tracks.message (fun _ => rfl) rfl rfl, h.hears.keep (by simp [Diagram.calls_append])
    rfl rfl rfl rfl ?_ fun a ha => ?_⟩
  · exact List.nodup_cons.2 ⟨h.hears.distinct.not_mem_erase, h.hears.distinct.erase _⟩
  · by_cases hx : a = x.target
    · subst hx
      exact .head _
    · exact .tail _ ((List.mem_erase_of_ne hx).2 ha)

theorem Follows.call (h : Follows es w) (c : Call) {w' : Walk}
    (hw : w.step es.length (.call c) = .ok w') : Follows (es ++ [.call c]) w' := by
  have hu := (h.note c.source).note c.target
  have hplace := hu.tracks.placeOf (e := .call c) c.parent
  obtain rfl := Except.ok.inj hw
  obtain ⟨ht, hh⟩ := hu
  refine ⟨ht.message (fun _ => rfl) rfl (shape_own _ c.parent), ⟨?_, hh.call.snoc hplace rfl, ?_,
    hh.reply.append _, hh.replyOnce, fun x hx => ?_, hh.raise.append _, hh.raiseOf,
    hh.result.append _, hh.resultOf, hh.distinct, fun x hx => ?_⟩⟩
  · simp only [List.map_append, hh.calls, Diagram.calls_append, List.map_cons, List.map_nil]
  · simp only [List.mem_append, List.mem_singleton]
    rintro x (hx | rfl)
    · exact hh.callOf x hx
    · rfl
  · obtain ⟨c', hc', hr⟩ := hh.replyOf x hx
    refine ⟨c', ?_, hr⟩
    rw [Diagram.calls_append]
    exact List.mem_append_left _ hc'
  · rw [Diagram.calls_append] at hx
    rcases List.mem_append.1 hx with hx | hx
    · exact hh.ends x hx
    · rw [List.mem_singleton.1 hx]
      have htarget := note_participants (w.note c.source) c.target
      exact ⟨htarget.2 (note_participants w c.source).1, htarget.1⟩

/-- A message that is neither a call nor brings up a participant. -/
theorem Follows.mentioned (h : Follows es w) (he : ∀ b, Blocks.step b e = b)
    (hc : (Diagram.mk (es ++ [e])).calls = (Diagram.mk es).calls)
    (ho : w'.openBlocks = w.openBlocks) (hs : w'.shape = w.shape) (hwc : w'.calls = w.calls)
    (hr : Listed (es ++ [e]) .reply w'.replies) (hro : (w'.replies.map (·.1.call)).Nodup)
    (hra : ∀ x ∈ w'.replies, ∃ c ∈ (Diagram.mk es).calls,
      c.id = x.1.call ∧ c.parent = x.2.method)
    (ht : Listed (es ++ [e]) .raise w'.raises) (hto : ∀ x ∈ w'.raises, x.2.method = x.1.parent)
    (hv : Listed (es ++ [e]) .result w'.results)
    (hvo : ∀ x ∈ w'.results, x.2.method = x.1.parent)
    (hd : w'.participants.Nodup) (hp : w.participants ⊆ w'.participants) :
    Follows (es ++ [e]) w' := by
  refine ⟨h.tracks.message he ho hs, ⟨by rw [hwc, hc, h.hears.calls], ?_, ?_, hr, hro,
    by rw [hc]; exact hra, ht, hto, hv, hvo, hd, fun c hx => ?_⟩⟩
  · rw [hwc]
    exact h.hears.call.append e
  · rw [hwc]
    exact h.hears.callOf
  · rw [hc] at hx
    exact ⟨hp (h.hears.ends c hx).1, hp (h.hears.ends c hx).2⟩

theorem Follows.reply (h : Follows es w) (r : Reply) {w' : Walk}
    (ha : ∃ c ∈ (Diagram.mk es).calls, c.id = r.call)
    (hw : w.step es.length (.reply r) = .ok w') : Follows (es ++ [.reply r]) w' := by
  have hplace := h.tracks.placeOf (e := .reply r) (w.callerOf r.call)
  obtain rfl := Except.ok.inj hw
  refine h.mentioned (fun _ => rfl) (by simp [Diagram.calls_append]) rfl (shape_own w _) rfl
    ?_ ?_ ?_ (h.hears.raise.append _) h.hears.raiseOf (h.hears.result.append _) h.hears.resultOf
    h.hears.distinct (List.Subset.refl _)
  · exact (h.hears.reply.filter _).snoc hplace rfl
  · simp only [List.map_append, List.map_cons, List.map_nil]
    refine List.nodup_append.2 ⟨?_, List.nodup_singleton _, fun a ha b hb => ?_⟩
    · exact h.hears.replyOnce.sublist (List.filter_sublist.map _)
    · obtain ⟨x, hx, rfl⟩ := List.mem_map.1 ha
      rw [List.mem_singleton.1 hb]
      simpa using (List.mem_filter.1 hx).2
  · intro x hx
    rcases List.mem_append.1 hx with hx | hx
    · exact h.hears.replyOf x (List.mem_filter.1 hx).1
    · rw [List.mem_singleton.1 hx]
      exact h.hears.callerOf ha

theorem Follows.raise (h : Follows es w) (t : Raise) {w' : Walk}
    (hw : w.step es.length (.raise t) = .ok w') : Follows (es ++ [.raise t]) w' := by
  have hu := h.note t.participant
  have hplace := hu.tracks.placeOf (e := .raise t) t.parent
  obtain rfl := Except.ok.inj hw
  refine hu.mentioned (fun _ => rfl) (by simp [Diagram.calls_append]) rfl (shape_own _ _) rfl
    (hu.hears.reply.append _) hu.hears.replyOnce hu.hears.replyOf ?_ ?_ (hu.hears.result.append _)
    hu.hears.resultOf hu.hears.distinct (List.Subset.refl _)
  · exact hu.hears.raise.snoc hplace rfl
  · simp only [List.mem_append, List.mem_singleton]
    rintro x (hx | rfl)
    · exact hu.hears.raiseOf x hx
    · rfl

theorem Follows.result (h : Follows es w) (r : Result) {w' : Walk}
    (hw : w.step es.length (.result r) = .ok w') : Follows (es ++ [.result r]) w' := by
  have hplace := h.tracks.placeOf (e := .result r) r.parent
  obtain rfl := Except.ok.inj hw
  refine h.mentioned (fun _ => rfl) (by simp [Diagram.calls_append]) rfl (shape_own w _) rfl
    (h.hears.reply.append _) h.hears.replyOnce h.hears.replyOf (h.hears.raise.append _)
    h.hears.raiseOf ?_ ?_ h.hears.distinct (List.Subset.refl _)
  · exact h.hears.result.snoc hplace rfl
  · simp only [List.mem_append, List.mem_singleton]
    rintro x (hx | rfl)
    · exact h.hears.resultOf x hx
    · rfl

/-- One step of the walk. A further branch stands inside an alternative, and a reply answers a call
that has been heard. -/
theorem Follows.step (h : Follows es w) {w' : Walk}
    (hreply : ∀ r, e = .reply r → ∃ c ∈ (Diagram.mk es).calls, c.id = r.call)
    (helse : ∀ line guard, e = .orElse line guard →
      ∃ f rest, (Blocks.after es).around = f :: rest ∧ f.kind = .alt)
    (hw : w.step es.length e = .ok w') : Follows (es ++ [e]) w' := by
  cases e with
  | participant line name =>
    obtain rfl := Except.ok.inj hw
    exact h.participant line name
  | entry x =>
    obtain rfl := Except.ok.inj hw
    exact h.entry x
  | call c => exact h.call c hw
  | reply r => exact h.reply r (hreply r rfl) hw
  | raise t => exact h.raise t hw
  | result r => exact h.result r hw
  | loop line label =>
    obtain rfl := Except.ok.inj hw
    exact ⟨h.tracks.opened _ rfl rfl rfl (by simp) (by simp) (fun _ => rfl),
      h.hears.keep (by simp [Diagram.calls_append]) rfl rfl rfl rfl h.hears.distinct
        (List.Subset.refl _)⟩
  | alt line guard =>
    obtain rfl := Except.ok.inj hw
    exact ⟨h.tracks.opened _ rfl rfl rfl (by simp) (fun _ => rfl) (by simp),
      h.hears.keep (by simp [Diagram.calls_append]) rfl rfl rfl rfl h.hears.distinct
        (List.Subset.refl _)⟩
  | orElse line guard =>
    obtain ⟨f, rest, hr, hk⟩ := helse line guard rfl
    refine ⟨h.tracks.branched hr hk hw, ?_⟩
    simp only [Walk.step, Walk.branch] at hw
    split at hw
    · cases hw
    · obtain rfl := Except.ok.inj hw
      exact h.hears.keep (by simp [Diagram.calls_append]) rfl rfl rfl rfl h.hears.distinct
        (List.Subset.refl _)
  | close line =>
    refine ⟨h.tracks.closed rfl hw, ?_⟩
    simp only [Walk.step, Walk.closeBlock] at hw
    split at hw
    · cases hw
    · obtain rfl := Except.ok.inj hw
      exact h.hears.keep (by simp [Diagram.calls_append]) rfl rfl rfl rfl h.hears.distinct
        (List.Subset.refl _)

/-- No step fails that closes or branches an open block. -/
theorem Follows.exists_step (h : Follows es w)
    (helse : ∀ line guard, e = .orElse line guard → (Blocks.after es).around ≠ [])
    (hclose : ∀ line, e = .close line → (Blocks.after es).around ≠ []) (n : Nat) :
    ∃ w', w.step n e = .ok w' := by
  have hopen : (Blocks.after es).around ≠ [] → ∃ id ids, w.openBlocks = id :: ids := by
    intro hne
    rw [← List.ne_nil_iff_exists_cons, h.tracks.openBlocks]
    simpa using hne
  cases e with
  | orElse line guard =>
    obtain ⟨id, ids, ho⟩ := hopen (helse line guard rfl)
    exact ⟨_, by rw [Walk.step, Walk.branch, ho]⟩
  | close line =>
    obtain ⟨id, ids, ho⟩ := hopen (hclose line rfl)
    exact ⟨_, by rw [Walk.step, Walk.closeBlock, ho]⟩
  | _ => exact ⟨_, rfl⟩

/-- The walk over further elements of a sound diagram. -/
theorem Follows.run : ∀ {rest : List Element} {es : List Element} {w : Walk}, Follows es w →
    (Diagram.mk (es ++ rest)).Sound →
      ∃ w', Walk.run w es.length rest = .ok w' ∧ Follows (es ++ rest) w'
  | [], es, w, h, _ => ⟨w, rfl, by simpa using h⟩
  | e :: rest, es, w, h, hd => by
    have hget : (Diagram.mk (es ++ e :: rest)).elements[es.length]? = some e := by simp
    have hbefore : (Diagram.mk (es ++ e :: rest)).elements.take es.length = es := List.take_left
    have hbranched := hd.branched es.length
    have hclosed := hd.closed es.length
    have hanswered := hd.answered es.length
    rw [hget, hbefore] at hbranched hclosed hanswered
    obtain ⟨u, hu⟩ := h.exists_step (e := e)
      (fun line guard he => by
        obtain ⟨f, fs, hf, -⟩ := hbranched line guard (congrArg some he)
        simp [hf])
      (fun line he => hclosed line (congrArg some he)) es.length
    have hstep : Follows (es ++ [e]) u := h.step (fun r he => hanswered r (congrArg some he))
      (fun line guard he => hbranched line guard (congrArg some he)) hu
    have hd' : (Diagram.mk (es ++ [e] ++ rest)).Sound := by simpa using hd
    obtain ⟨w', hw', hf⟩ := hstep.run hd'
    refine ⟨w', ?_, by simpa using hf⟩
    rw [Walk.run, hu]
    simpa using hw'

/-- **The walk over a sound diagram** knows the place of every block and every message. -/
theorem exists_run {d : Diagram} (hd : d.Sound) :
    ∃ w, Walk.run {} 0 d.elements = .ok w ∧ Follows d.elements w :=
  follows_start.run hd

theorem follows_of_run {d : Diagram} (hd : d.Sound) {w : Walk}
    (hw : Walk.run {} 0 d.elements = .ok w) : Follows d.elements w := by
  obtain ⟨w', hw', hf⟩ := exists_run hd
  obtain rfl := Except.ok.inj (hw.symm.trans hw')
  exact hf

end Walk

end Lifeline.Model
