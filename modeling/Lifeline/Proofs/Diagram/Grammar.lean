import Lifeline.Proofs.Model.Messages

/-!
# The grammar of blocks

Which sequences of block keywords a reader takes. The grammar is written out (`Line.Items`), and so
is what may stand inside a block that is still open (`Line.Inside`).

* `items_iff`, `viable_iff`: a stack of open blocks (`Line.turn`) reads exactly the sequences of the
  grammar, and gets stuck exactly where no continuation is left. What lies open on the stack is a
  cut of the sequence (`Line.Pending`).
* `Reader.turned`, `Reader.stuck`: the blocks of a reader are that stack.
* `Diagram.reads_iff_items`: a text is taken exactly when its keywords are in the grammar, and where
  it is not, the error is on the first keyword that spoils it or on the innermost open block.
-/

set_option autoImplicit false

namespace Lifeline

namespace Line

/-- The keywords that blocks are made of. -/
inductive Keyword where
  | loop | alt | orElse | close
deriving Repr, DecidableEq

/-- The keyword that opens a block. -/
def Keyword.opening : FragmentKind → Keyword
  | .loop => .loop
  | .alt => .alt

/-- The block keyword that a statement is, where it is one. -/
def Statement.keyword? : Statement → Option Keyword
  | .fragment keyword _ =>
    if keyword = "loop" then some .loop else if keyword = "alt" then some .alt else none
  | .orElse _ => some .orElse
  | .close => some .close
  | .arrow .. | .participant .. => none

/-- The block keywords of some lines, in order. -/
def keywords (lines : List Line) : List Keyword := lines.filterMap (·.statement.keyword?)

/-! ## The grammar -/

/-- `Items ::= empty | Items loop Items end | Items alt Items (else Items)* end` -/
inductive Items : List Keyword → Prop
  | nil : Items []
  | loop {before inner : List Keyword} : Items before → Items inner →
      Items (before ++ .loop :: (inner ++ [.close]))
  | alt {before first : List Keyword} {others : List (List Keyword)} : Items before →
      Items first → (∀ other ∈ others, Items other) →
      Items (before ++ .alt :: (first ++ others.flatMap (.orElse :: ·) ++ [.close]))

/-- What may stand between the opening of a block and its end: items, in an alternative with further
branches. -/
def Inside : FragmentKind → List Keyword → Prop
  | .loop, ks => Items ks
  | .alt, ks => ∃ (first : List Keyword) (others : List (List Keyword)), Items first ∧
      (∀ other ∈ others, Items other) ∧ ks = first ++ others.flatMap (.orElse :: ·)

/-- Some keywords have a continuation that the grammar derives. -/
def Viable (ks : List Keyword) : Prop := ∃ rest, Items (ks ++ rest)

theorem inside_nil (k : FragmentKind) : Inside k [] := by
  cases k with
  | loop => exact Items.nil
  | alt => exact ⟨[], [], .nil, by simp, rfl⟩

/-- A block that is closed is an item behind others. -/
theorem Items.block {k : FragmentKind} {before inner : List Keyword} (hb : Items before)
    (hi : Inside k inner) : Items (before ++ Keyword.opening k :: (inner ++ [.close])) := by
  cases k with
  | loop => exact .loop hb hi
  | alt =>
    obtain ⟨first, others, hfirst, hothers, rfl⟩ := hi
    exact .alt hb hfirst hothers

/-- What may follow any items may follow what stands inside a block: it goes to its last branch. -/
theorem Inside.append {k : FragmentKind} {ks more : List Keyword} (h : Inside k ks)
    (hmore : ∀ items, Items items → Items (items ++ more)) : Inside k (ks ++ more) := by
  cases k with
  | loop => exact hmore ks h
  | alt =>
    obtain ⟨first, others, hfirst, hothers, rfl⟩ := h
    induction others using List.reverseRecOn with
    | nil => exact ⟨first ++ more, [], hmore first hfirst, by simp, by simp⟩
    | append_singleton others last _ =>
      refine ⟨first, others ++ [last ++ more], hfirst, ?_, by simp⟩
      simp only [List.mem_append, List.mem_singleton]
      rintro other (ho | rfl)
      · exact hothers other (List.mem_append_left _ ho)
      · exact hmore last (hothers last (by simp))

/-- A further branch of an alternative. -/
theorem Inside.orElse {ks : List Keyword} (h : Inside .alt ks) :
    Inside .alt (ks ++ [.orElse]) := by
  obtain ⟨first, others, hfirst, hothers, rfl⟩ := h
  refine ⟨first, others ++ [[]], hfirst, ?_, by simp⟩
  simp only [List.mem_append, List.mem_singleton]
  rintro other (ho | rfl)
  · exact hothers other ho
  · exact .nil

/-! ## The stack of open blocks -/

/-- The open blocks after one more keyword on the line with a number; none where it does not fit. -/
def turn (open_ : List OpenBlock) : Keyword × Nat → Option (List OpenBlock)
  | (.loop, n) => some (⟨.loop, n⟩ :: open_)
  | (.alt, n) => some (⟨.alt, n⟩ :: open_)
  | (.orElse, _) =>
    match open_ with
    | ⟨.alt, _⟩ :: _ => some open_
    | _ => none
  | (.close, _) =>
    match open_ with
    | _ :: rest => some rest
    | [] => none

variable {ts us : List (Keyword × Nat)} {bs bs' : List OpenBlock}

@[simp] theorem turn_opening (k : FragmentKind) (n : Nat) :
    turn bs (Keyword.opening k, n) = some (⟨k, n⟩ :: bs) := by
  cases k <;> rfl

/-- Items leave the open blocks as they were. -/
theorem Items.turns {ks : List Keyword} (h : Items ks) :
    ∀ {ts : List (Keyword × Nat)}, ts.map (·.1) = ks → ∀ bs, ts.foldlM turn bs = some bs := by
  induction h with
  | nil =>
    intro ts hts bs
    rw [List.map_eq_nil_iff.1 hts]
    rfl
  | loop _ _ ihbefore ihinner =>
    intro ts hts bs
    obtain ⟨before, rest, rfl, hbefore, hrest⟩ := List.map_eq_append_iff.1 hts
    obtain ⟨⟨_, n⟩, tail, rfl, rfl, htail⟩ := List.map_eq_cons_iff.1 hrest
    obtain ⟨inner, last, rfl, hinner, hlast⟩ := List.map_eq_append_iff.1 htail
    obtain ⟨⟨_, m⟩, rfl, rfl⟩ := List.map_eq_singleton_iff.1 hlast
    simp [List.foldlM_append, ihbefore hbefore, ihinner hinner, turn]
  | @alt _ _ others _ _ _ ihbefore ihfirst ihothers =>
    intro ts hts bs
    obtain ⟨before, rest, rfl, hbefore, hrest⟩ := List.map_eq_append_iff.1 hts
    obtain ⟨⟨_, n⟩, tail, rfl, rfl, htail⟩ := List.map_eq_cons_iff.1 hrest
    obtain ⟨inner, last, rfl, hinner, hlast⟩ := List.map_eq_append_iff.1 htail
    obtain ⟨⟨_, m⟩, rfl, rfl⟩ := List.map_eq_singleton_iff.1 hlast
    obtain ⟨first, further, rfl, hfirst, hfurther⟩ := List.map_eq_append_iff.1 hinner
    -- the further branches find the alternative as the innermost block, and leave it so
    have hothers : ∀ {os : List (List Keyword)} {us : List (Keyword × Nat)}, os ⊆ others →
        us.map (·.1) = os.flatMap (.orElse :: ·) →
        us.foldlM turn (⟨.alt, n⟩ :: bs) = some (⟨.alt, n⟩ :: bs) := by
      intro os
      induction os with
      | nil =>
        intro us _ hus
        rw [List.map_eq_nil_iff.1 hus]
        rfl
      | cons o os ih =>
        intro us hsub hus
        rw [List.flatMap_cons, List.cons_append] at hus
        obtain ⟨⟨_, _⟩, rest, rfl, rfl, hrest⟩ := List.map_eq_cons_iff.1 hus
        obtain ⟨vs, ws, rfl, hvs, hws⟩ := List.map_eq_append_iff.1 hrest
        have ho : o ∈ others := hsub (.head _)
        simp [List.foldlM_append, turn, ihothers o ho hvs,
          ih (fun x hx => hsub (.tail _ hx)) hws]
    simp [List.foldlM_append, ihbefore hbefore, ihfirst hfirst, turn,
      hothers (List.Subset.refl _) hfurther]

/-- What lies open: the keywords are items, with blocks between them that have been opened and not
closed, the innermost last. -/
inductive Pending : List OpenBlock → List (Keyword × Nat) → Prop
  | nil {ts : List (Keyword × Nat)} : Items (ts.map (·.1)) → Pending [] ts
  | cons {bs : List OpenBlock} {ts us : List (Keyword × Nat)} {k : FragmentKind} {n : Nat} :
      Pending bs ts → Inside k (us.map (·.1)) →
      Pending (⟨k, n⟩ :: bs) (ts ++ (Keyword.opening k, n) :: us)

/-- What may follow any items may follow what lies open. -/
theorem Pending.append (h : Pending bs ts)
    (hus : ∀ items, Items items → Items (items ++ us.map (·.1))) : Pending bs (ts ++ us) := by
  cases h with
  | nil h => exact .nil (by simpa using hus _ h)
  | cons h hinside =>
    rw [List.append_assoc, List.cons_append]
    exact .cons h (by simpa using hinside.append hus)

theorem Pending.turn (h : Pending bs ts) {t : Keyword × Nat} (ht : turn bs t = some bs') :
    Pending bs' (ts ++ [t]) := by
  obtain ⟨k, n⟩ := t
  cases k with
  | loop =>
    obtain rfl := Option.some.inj ht
    exact Pending.cons h (inside_nil .loop)
  | alt =>
    obtain rfl := Option.some.inj ht
    exact Pending.cons h (inside_nil .alt)
  | orElse =>
    cases h with
    | nil => cases ht
    | @cons bs ts us k n' h hinside =>
      cases k with
      | loop => cases ht
      | alt =>
        obtain rfl := Option.some.inj ht
        rw [List.append_assoc, List.cons_append]
        exact .cons h (by simpa using hinside.orElse)
  | close =>
    cases h with
    | nil => cases ht
    | cons h hinside =>
      obtain rfl := Option.some.inj ht
      rw [List.append_assoc, List.cons_append]
      refine h.append fun items hitems => ?_
      simpa using hitems.block hinside

theorem pending_of_turns (h : ts.foldlM turn [] = some bs) : Pending bs ts := by
  induction ts using List.reverseRecOn generalizing bs with
  | nil =>
    obtain rfl := Option.some.inj h
    exact .nil .nil
  | append_singleton ts t ih =>
    simp only [List.foldlM_append, List.foldlM_cons, List.foldlM_nil, Option.bind_eq_bind,
      Option.pure_def, Option.bind_eq_some_iff] at h
    obtain ⟨bs', h, ht⟩ := h
    exact (ih h).turn (by simpa using ht)

/-- **The grammar, read with a stack**: the items are what leaves no block open. -/
theorem items_iff : Items (ts.map (·.1)) ↔ ts.foldlM turn [] = some [] := by
  refine ⟨fun h => h.turns rfl [], fun h => ?_⟩
  cases pending_of_turns h with
  | nil h => exact h

/-- **Keywords that can be continued** are those on which the stack does not get stuck: the blocks
that are open may be closed. -/
theorem viable_iff : Viable (ts.map (·.1)) ↔ ∃ bs, ts.foldlM turn [] = some bs := by
  constructor
  · rintro ⟨rest, h⟩
    have hmarks : (ts ++ rest.map (·, 0)).map Prod.fst = ts.map (·.1) ++ rest := by
      simp [Function.comp_def]
    have hall := h.turns hmarks []
    rw [List.foldlM_append] at hall
    obtain ⟨bs, hbs, -⟩ := Option.bind_eq_some_iff.1 hall
    exact ⟨bs, hbs⟩
  · rintro ⟨bs, hbs⟩
    have hclose : ∀ bs : List OpenBlock,
        (bs.map fun _ => (Keyword.close, 0)).foldlM turn bs = some [] := by
      intro bs
      induction bs with
      | nil => rfl
      | cons b bs ih => simpa [turn] using ih
    refine ⟨bs.map fun _ => .close, ?_⟩
    have hmarks : (ts ++ bs.map fun _ => (Keyword.close, 0)).foldlM turn [] = some [] := by
      rw [List.foldlM_append, hbs]
      exact hclose bs
    simpa using items_iff.2 hmarks

/-! ## Lines -/

/-- The block keyword of a line, where it has one, with the number of the line. -/
def mark? (l : Line) : Option (Keyword × Nat) := l.statement.keyword?.map (·, l.number)

theorem keyword_cases {s : Statement} {k : Keyword} (h : s.keyword? = some k) :
    (∃ label, s = .fragment "loop" label ∧ k = .loop) ∨
      (∃ label, s = .fragment "alt" label ∧ k = .alt) ∨
        (∃ label, s = .orElse label ∧ k = .orElse) ∨ (s = .close ∧ k = .close) := by
  cases s with
  | participant | arrow => cases h
  | fragment keyword label =>
    simp only [Statement.keyword?] at h
    split at h
    · rename_i hloop
      exact .inl ⟨label, by rw [hloop], (Option.some.inj h).symm⟩
    split at h
    · rename_i halt
      exact .inr (.inl ⟨label, by rw [halt], (Option.some.inj h).symm⟩)
    · cases h
  | orElse label => exact .inr (.inr (.inl ⟨label, rfl, (Option.some.inj h).symm⟩))
  | close => exact .inr (.inr (.inr ⟨rfl, (Option.some.inj h).symm⟩))

theorem marks_fst (lines : List Line) :
    (lines.filterMap mark?).map (·.1) = keywords lines := by
  rw [keywords, List.map_filterMap]
  refine List.filterMap_congr fun l _ => ?_
  simp [mark?, Function.comp_def]

/-- Declarations, blocks and arrows, of which each arrow is accepted where it stands. -/
structure Regular (lines : List Line) : Prop where
  fragment : ∀ l ∈ lines, ∀ keyword label, l.statement = .fragment keyword label →
    keyword = "loop" ∨ keyword = "alt"
  arrow : ∀ pre l post r source glyph target label, lines = pre ++ l :: post →
    l.statement = .arrow source glyph target label → pre.foldlM Reader.step {} = .ok r →
    ∃ r', r.step l = .ok r'

/-- Arrows that have been read were accepted where they stand. -/
theorem regular_of_read {pre post : List Line} {r : Reader}
    (hread : pre.foldlM Reader.step {} = .ok r)
    (hfragment : ∀ l ∈ pre ++ post, ∀ keyword label, l.statement = .fragment keyword label →
      keyword = "loop" ∨ keyword = "alt")
    (harrow : ∀ l ∈ post, ∀ source glyph target label,
      l.statement ≠ .arrow source glyph target label) : Regular (pre ++ post) := by
  refine ⟨hfragment, fun before l after r' source glyph target label hcut hl hr' => ?_⟩
  rcases List.append_eq_append_iff.1 hcut with ⟨further, rfl, hpost⟩ | ⟨further, hpre, hafter⟩
  · exact absurd hl (harrow l (by simp [hpost]) _ _ _ _)
  cases further with
  | nil =>
    refine absurd hl (harrow l ?_ _ _ _ _)
    rw [List.nil_append] at hafter
    exact hafter ▸ .head _
  | cons x further =>
    obtain ⟨rfl, -⟩ := List.cons.inj hafter
    rw [hpre, List.foldlM_append] at hread
    obtain ⟨r₁, hr₁, hfurther⟩ := bind_ok.1 hread
    obtain rfl := Except.ok.inj (hr'.symm.trans hr₁)
    rw [List.foldlM_cons] at hfurther
    obtain ⟨r'', hr'', -⟩ := bind_ok.1 hfurther
    exact ⟨r'', hr''⟩

end Line

namespace Reader

open Line (Keyword turn)

variable {r r' : Reader} {l : Line}

/-- An arrow opens and closes no block. -/
theorem blocks_of_readArrow {n : Int} {source glyph target : String} {label : Option String}
    (hr : r.readArrow n source glyph target label = .ok r') : r'.blocks = r.blocks := by
  unfold readArrow at hr
  split at hr
  · unfold readEntry at hr
    split at hr
    · cases hr
    dsimp only at hr
    split at hr
    · simp only [bind_ok, pure_ok] at hr
      obtain ⟨args, -, rfl⟩ := hr
      rfl
    · cases hr
  simp only [bind_ok] at hr
  obtain ⟨⟨r₁, parent⟩, hactivate, hr⟩ := hr
  have h : r₁.blocks = r.blocks := (heeds_of_activate hactivate).blocks
  rw [← h]
  split at hr
  · unfold readResult at hr
    split at hr <;> cases hr
    rfl
  split at hr
  · cases hr
  split at hr
  · unfold readRaise at hr
    split at hr
    · cases hr
    · split at hr <;> cases hr
      rfl
  split at hr
  · unfold readCall at hr
    split at hr
    · cases hr
    · cases hr
    · simp only [bind_ok, pure_ok] at hr
      obtain ⟨args, -, rfl⟩ := hr
      rfl
  · unfold readReply at hr
    split at hr
    · split at hr <;> cases hr
      rfl
    · cases hr

/-- A line without a block keyword, which is read, leaves the open blocks as they were. -/
theorem blocks_of_step (hl : l.mark? = none) (hr : r.step l = .ok r') : r'.blocks = r.blocks := by
  unfold step at hr
  split at hr
  · rename_i r₁ h₁
    obtain rfl := Except.ok.inj hr
    obtain ⟨number, text, statement⟩ := l
    cases statement with
    | participant keyword name =>
      obtain rfl := Except.ok.inj h₁
      rfl
    | arrow source glyph target label => exact blocks_of_readArrow h₁
    | fragment keyword label =>
      simp only [Line.mark?, Line.Statement.keyword?, Option.map_eq_none_iff] at hl
      split at hl
      · cases hl
      split at hl
      · cases hl
      · rename_i hloop halt
        simp [readStatement, readFragment, hloop, halt] at h₁
    | orElse label => cases hl
    | close => cases hl
  · cases hr

/-- A line with a block keyword turns the open blocks, or it is refused. -/
theorem step_of_mark {t : Keyword × Nat} (hl : l.mark? = some t) :
    (∃ bs r', turn r.blocks t = some bs ∧ r.step l = .ok r' ∧ r'.blocks = bs) ∨
      (turn r.blocks t = none ∧
        ∃ fault, r.step l = .error ⟨l.number, fault⟩ ∧ fault.issue = .unexpectedBlockKeyword) := by
  obtain ⟨number, text, statement⟩ := l
  obtain ⟨k, hk, rfl⟩ := Option.map_eq_some_iff.1 hl
  obtain ⟨label, rfl, rfl⟩ | ⟨label, rfl, rfl⟩ | ⟨label, rfl, rfl⟩ | ⟨rfl, rfl⟩ :=
    Line.keyword_cases hk
  · exact .inl ⟨_, _, rfl, rfl, rfl⟩
  · exact .inl ⟨_, _, rfl, rfl, rfl⟩
  · match hb : r.blocks with
    | ⟨.alt, _⟩ :: _ =>
      exact .inl ⟨_, r.push (.orElse number (Label.readGuard label)), rfl,
        by simp only [step, readStatement, readElse, hb], hb⟩
    | ⟨.loop, _⟩ :: _ | [] =>
      exact .inr ⟨rfl, .strayElse, by simp only [step, readStatement, readElse, hb], rfl⟩
  · match hb : r.blocks with
    | _ :: _ => exact .inl ⟨_, _, rfl, by simp only [step, readStatement, readEnd, hb]; rfl, rfl⟩
    | [] => exact .inr ⟨rfl, .strayEnd, by simp only [step, readStatement, readEnd, hb], rfl⟩

/-! ## All lines -/

variable {lines pre post : List Line}

/-- One more line leaves the blocks that its keyword makes of those that were open, or it is refused
for its keyword. -/
theorem next (h : Line.Regular lines) (hlines : lines = pre ++ l :: post)
    (hr : pre.foldlM step {} = .ok r) :
    (∃ r', r.step l = .ok r' ∧ ([l].filterMap Line.mark?).foldlM turn r.blocks = some r'.blocks) ∨
      (([l].filterMap Line.mark?).foldlM turn r.blocks = none ∧
        ∃ fault, r.step l = .error ⟨l.number, fault⟩ ∧ fault.issue = .unexpectedBlockKeyword) := by
  cases hl : l.mark? with
  | some t =>
    have hturn : ([l].filterMap Line.mark?).foldlM turn r.blocks = turn r.blocks t := by
      simp [hl]
    rw [hturn]
    obtain ⟨bs, r', ht, hr', rfl⟩ | hrefused := step_of_mark hl
    · exact .inl ⟨r', hr', ht⟩
    · exact .inr hrefused
  | none =>
    have hread : ∃ r', r.step l = .ok r' := by
      have hmem : l ∈ lines := by simp [hlines]
      cases hs : l.statement with
      | participant keyword name => exact ⟨_, by rw [step, hs]; rfl⟩
      | arrow source glyph target label => exact h.arrow pre l post r _ _ _ _ hlines hs hr
      | fragment keyword label =>
        obtain rfl | rfl := h.fragment l hmem _ _ hs
        all_goals simp [Line.mark?, hs, Line.Statement.keyword?] at hl
      | orElse | close => simp [Line.mark?, hs, Line.Statement.keyword?] at hl
    obtain ⟨r', hr'⟩ := hread
    exact .inl ⟨r', hr', by simp [hl, blocks_of_step hl hr']⟩

/-- Lines whose keywords fit are read, and leave the blocks open that the keywords leave open. -/
theorem turned (h : Line.Regular lines) {bs : List OpenBlock} (hlines : lines = pre ++ post)
    (hpre : (pre.filterMap Line.mark?).foldlM turn [] = some bs) :
    ∃ r, pre.foldlM step {} = .ok r ∧ r.blocks = bs := by
  induction pre using List.reverseRecOn generalizing post bs with
  | nil =>
    obtain rfl := Option.some.inj hpre
    exact ⟨{}, rfl, rfl⟩
  | append_singleton pre l ih =>
    rw [List.append_assoc, List.singleton_append] at hlines
    rw [List.filterMap_append, List.foldlM_append] at hpre
    obtain ⟨bs', hbs', hl⟩ := Option.bind_eq_some_iff.1 hpre
    obtain ⟨r, hr, rfl⟩ := ih hlines hbs'
    obtain ⟨r', hr', hturn⟩ | ⟨hnone, -⟩ := next h hlines hr
    · exact ⟨r', by simp [List.foldlM_append, hr, hr', bind, Except.bind, pure, Except.pure],
        Option.some.inj (hturn.symm.trans hl)⟩
    · rw [hnone] at hl
      cases hl

/-- Lines that are read have keywords that leave the open blocks of the reader. -/
theorem turns_of_read (h : Line.Regular lines) (hlines : lines = pre ++ post)
    (hr : pre.foldlM step {} = .ok r) :
    (pre.filterMap Line.mark?).foldlM turn [] = some r.blocks := by
  induction pre using List.reverseRecOn generalizing post r with
  | nil =>
    obtain rfl := Except.ok.inj hr
    rfl
  | append_singleton pre l ih =>
    rw [List.append_assoc, List.singleton_append] at hlines
    rw [List.foldlM_append] at hr
    obtain ⟨r₁, hr₁, hl⟩ := bind_ok.1 hr
    have hl : r₁.step l = .ok r := by simpa using hl
    rw [List.filterMap_append, List.foldlM_append, ih hlines hr₁]
    obtain ⟨r', hr', hturn⟩ | ⟨-, fault, hfault, -⟩ := next h hlines hr₁
    · obtain rfl := Except.ok.inj (hr'.symm.trans hl)
      exact hturn
    · cases hfault.symm.trans hl

/-- The first line whose keyword does not fit is refused. -/
theorem stuck (h : Line.Regular lines) {bs : List OpenBlock} (hlines : lines = pre ++ l :: post)
    (hpre : (pre.filterMap Line.mark?).foldlM turn [] = some bs)
    (hl : ((pre ++ [l]).filterMap Line.mark?).foldlM turn [] = none) :
    ∃ fault, lines.foldlM step {} = .error ⟨l.number, fault⟩ ∧
      fault.issue = .unexpectedBlockKeyword := by
  obtain ⟨r, hr, rfl⟩ := turned h hlines hpre
  rw [List.filterMap_append, List.foldlM_append, hpre] at hl
  obtain ⟨r', -, hturn⟩ | ⟨-, fault, hfault, hissue⟩ := next h hlines hr
  · exact absurd (hturn.symm.trans hl) (by simp)
  · exact ⟨fault, by simp [hlines, List.foldlM_append, hr, hfault, bind, Except.bind], hissue⟩

end Reader

/-! ## Whole texts -/

/-- A walk over more elements goes on from where it is behind the first ones. -/
theorem Model.Walk.run_append (pre post : List Element) : ∀ (w : Walk) (n : Nat),
    w.run n (pre ++ post) = w.run n pre >>= fun u => u.run (n + pre.length) post := by
  induction pre with
  | nil => exact fun w n => rfl
  | cons e pre ih =>
    intro w n
    rw [List.cons_append, Walk.run, Walk.run, bind_assoc]
    refine bind_congr fun u => ?_
    rw [ih, List.length_cons, Nat.add_assoc, Nat.add_comm 1]

namespace Diagram

open Line (Items Viable Inside Keyword keywords)

theorem viable_iff_turns {ls : List Line} :
    Viable (keywords ls) ↔ ∃ bs, (ls.filterMap Line.mark?).foldlM Line.turn [] = some bs := by
  rw [← Line.marks_fst, Line.viable_iff]

theorem items_iff_turns {ls : List Line} :
    Items (keywords ls) ↔ (ls.filterMap Line.mark?).foldlM Line.turn [] = some [] := by
  rw [← Line.marks_fst, Line.items_iff]

/-- What lies open innermost is opened on some line, and what follows stands inside. -/
theorem exists_open {ls : List Line} {b : OpenBlock} {bs : List OpenBlock}
    (h : (ls.filterMap Line.mark?).foldlM Line.turn [] = some (b :: bs)) :
    ∃ pre l post, ls = pre ++ l :: post ∧ l.statement.keyword? = some (Keyword.opening b.kind) ∧
      l.number = b.line ∧ Inside b.kind (keywords post) := by
  generalize hts : ls.filterMap Line.mark? = ts at h
  cases Line.pending_of_turns h with
  | cons _ hinside =>
    obtain ⟨pre, rest, rfl, -, hrest⟩ := List.filterMap_eq_append_iff.1 hts
    obtain ⟨skipped, l, post, rfl, -, hl, hpost⟩ := List.filterMap_eq_cons_iff.1 hrest
    obtain ⟨k, hk, heq⟩ := Option.map_eq_some_iff.1 hl
    obtain ⟨rfl, rfl⟩ := Prod.mk.inj heq
    refine ⟨pre ++ skipped, l, post, by simp, hk, rfl, ?_⟩
    rw [← Line.marks_fst, hpost]
    exact hinside

/-- The walk over a diagram that was read finds an open block wherever one is branched or closed. -/
theorem open_of_parse {source : String} {d : Diagram} (h : parse source = .ok d)
    {pre post : List Element} {e : Element} (hd : d.elements = pre ++ e :: post)
    (he : (∃ line guard, e = .orElse line guard) ∨ ∃ line, e = .close line) :
    ∃ u, Model.Walk.run {} 0 pre = .ok u ∧ u.openBlocks ≠ [] := by
  obtain ⟨w, hw, -⟩ := Model.Walk.exists_run (sound_of_parse h)
  rw [hd, Model.Walk.run_append] at hw
  obtain ⟨u, hu, hrest⟩ := bind_ok.1 hw
  rw [Model.Walk.run] at hrest
  obtain ⟨u', hstep, -⟩ := bind_ok.1 hrest
  refine ⟨u, hu, fun hnone => ?_⟩
  obtain ⟨line, guard, rfl⟩ | ⟨line, rfl⟩ := he
  · simp [Model.Walk.step, Model.Walk.branch, hnone] at hstep
  · simp [Model.Walk.step, Model.Walk.closeBlock, hnone] at hstep

/-- **A reader takes exactly the block grammar.** Among declarations of participants and arrows that
are accepted where they stand, lines are read exactly when their block keywords are items. Otherwise
the error is on the first line after which the keywords cannot be continued to items; where there is
no such line, it is on the line of the innermost block that is open at the end. So the walk over a
diagram that was read finds an open block wherever one is branched or closed. -/
theorem reads_iff_items {lines : List Line} (h : Line.Regular lines) :
    (∀ source, Line.scan source = .ok lines → parse source = ofLines lines) ∧
    ((∃ d, ofLines lines = .ok d) ↔ Items (keywords lines)) ∧
    (∀ pre l post, lines = pre ++ l :: post → Viable (keywords pre) →
      ¬ Viable (keywords (pre ++ [l])) → ∃ fault, ofLines lines = .error ⟨l.number, fault⟩ ∧
        fault.issue = .unexpectedBlockKeyword) ∧
    (¬ Items (keywords lines) → (∀ pre, pre <+: lines → Viable (keywords pre)) →
      ∃ pre l post kind, lines = pre ++ l :: post ∧
        l.statement.keyword? = some (Keyword.opening kind) ∧ Inside kind (keywords post) ∧
        ∃ fault, ofLines lines = .error ⟨l.number, fault⟩ ∧ fault.issue = .unterminatedBlock) ∧
    (∀ source d pre e post, parse source = .ok d → d.elements = pre ++ e :: post →
      ((∃ line guard, e = .orElse line guard) ∨ ∃ line, e = .close line) →
      ∃ w, Model.Walk.run {} 0 pre = .ok w ∧ w.openBlocks ≠ []) := by
  refine ⟨fun source hs => ?_, ⟨fun ⟨d, hd⟩ => ?_, fun hitems => ?_⟩,
    fun pre l post hlines hpre hl => ?_, fun hitems hviable => ?_,
    fun source d pre e post hd hpre he => open_of_parse hd hpre he⟩
  · rw [parse, hs]
    rfl
  · obtain ⟨r, hr, hfinish⟩ := bind_ok.1 hd
    have hclosed : r.blocks = [] := by
      unfold Reader.finish at hfinish
      split at hfinish
      · assumption
      · cases hfinish
    have hturns := Reader.turns_of_read h (List.append_nil lines).symm hr
    rw [hclosed] at hturns
    exact items_iff_turns.2 hturns
  · obtain ⟨r, hr, hblocks⟩ :=
      Reader.turned h (List.append_nil lines).symm (items_iff_turns.1 hitems)
    exact ⟨_, bind_ok.2 ⟨r, hr, by simp only [Reader.finish, hblocks]; rfl⟩⟩
  · obtain ⟨bs, hbs⟩ := viable_iff_turns.1 hpre
    have hnone := Option.eq_none_iff_forall_ne_some.2 fun bs' hbs' =>
      hl (viable_iff_turns.2 ⟨bs', hbs'⟩)
    obtain ⟨fault, hfault, hissue⟩ := Reader.stuck h hlines hbs hnone
    exact ⟨fault, by rw [ofLines, hfault]; rfl, hissue⟩
  · obtain ⟨bs, hbs⟩ := viable_iff_turns.1 (hviable lines List.prefix_rfl)
    obtain ⟨r, hr, rfl⟩ := Reader.turned h (List.append_nil lines).symm hbs
    cases hb : r.blocks with
    | nil => exact absurd (items_iff_turns.2 (hb ▸ hbs)) hitems
    | cons b rest =>
      obtain ⟨pre, l, post, hlines, hkeyword, hnumber, hinside⟩ := exists_open (hb ▸ hbs)
      refine ⟨pre, l, post, b.kind, hlines, hkeyword, hinside,
        .unclosed b.kind.keyword b.line, ?_, rfl⟩
      simp [ofLines, hr, Reader.finish, hb, hnumber, bind, Except.bind]

/-- A diagram with a further branch behind its alternative, inside a loop. -/
def lateBranch : String :=
  "[-> A : run(x)\nloop xs\nalt [x]\nA -> B : f(x)\nend\nelse\nend\n"

/-- The lines of that diagram up to its last arrow, and those behind. -/
def lateBranchLines : List Line × List Line :=
  ([⟨1, "[-> A : run(x)", .arrow "[" "->" "A" (some "run(x)")⟩,
    ⟨2, "loop xs", .fragment "loop" "xs"⟩,
    ⟨3, "alt [x]", .fragment "alt" "[x]"⟩,
    ⟨4, "A -> B : f(x)", .arrow "A" "->" "B" (some "f(x)")⟩],
   [⟨5, "end", .close⟩, ⟨6, "else", .orElse ""⟩, ⟨7, "end", .close⟩])

theorem scan_lateBranch :
    (Line.scan lateBranch).toOption = some (lateBranchLines.1 ++ lateBranchLines.2) ∧
      (lateBranchLines.1.foldlM Reader.step {}).toOption.isSome = true := by
  unfold Line.scan lateBranch
  rw [String.toList_ofList]
  decide +kernel

theorem regular_lateBranch : Line.Regular (lateBranchLines.1 ++ lateBranchLines.2) := by
  obtain ⟨r, hr⟩ := Option.isSome_iff_exists.1 scan_lateBranch.2
  refine Line.regular_of_read (toOption_eq_some.1 hr) ?_ ?_
  · simp [lateBranchLines]
  · simp [lateBranchLines]

/-- Where the further branch comes, only the loop is open. -/
theorem refused_lateBranch : ∃ lines, Line.scan lateBranch = .ok lines ∧ Line.Regular lines ∧
    ∃ fault, parse lateBranch = .error ⟨6, fault⟩ ∧ fault.issue = .unexpectedBlockKeyword := by
  have hscan := toOption_eq_some.1 scan_lateBranch.1
  obtain ⟨hparse, -, hspoiled, -, -⟩ := reads_iff_items regular_lateBranch
  refine ⟨_, hscan, regular_lateBranch, ?_⟩
  rw [hparse lateBranch hscan]
  let fitting : List Line := lateBranchLines.1 ++ lateBranchLines.2.take 1
  let late : Line := ⟨6, "else", .orElse ""⟩
  have hfits : (fitting.filterMap Line.mark?).foldlM Line.turn [] = some [⟨.loop, 2⟩] := by
    decide +kernel
  have hspoils : ((fitting ++ [late]).filterMap Line.mark?).foldlM Line.turn [] = none := by
    decide +kernel
  refine hspoiled fitting late (lateBranchLines.2.drop 2) rfl (viable_iff_turns.2 ⟨_, hfits⟩)
    fun hviable => ?_
  obtain ⟨bs, hbs⟩ := viable_iff_turns.1 hviable
  rw [hspoils] at hbs
  cases hbs

end Diagram

end Lifeline
