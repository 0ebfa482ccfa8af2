import Lifeline.Proofs.Lists
import Lifeline.Source.Render
import Mathlib.Data.List.Induction
import Mathlib.Data.List.TakeWhile

/-!
# Files that are merged

Files with one path become one: the blocks of the first, and behind them what the others have new
(`mergedBlocks`, `blocks_of_mem_mergeFiles`). A block is new where no block has its key yet,
whichever type it belongs to, so the members of a type that comes later may be missing, and those of
a type that is there already may come behind another one.

* `Block.key_inj`: the key of a block tells its kind and its name.
* `typesIn`: the types among blocks, each with the members up to the next type.
* `newBlocks`: what is new among blocks, by the keys that are taken (`addBlocks_eq`).
* `keepsMembers_iff`: each type of a merged file has the members of its own file if and only if
  every further file fits behind the ones before it (`FitsBehind`).
* `keepsHeaders_iff`: the text of every header is there if and only if the headers are that come
  behind another one of their role.
-/

set_option autoImplicit false

namespace Lifeline.Source

/-! ## Types and members -/

/-- A block that begins a class, an interface or a scaffold. -/
def Block.isType (b : Block) : Bool :=
  match b.kind with
  | .declaration .classType | .declaration .interface | .declaration .scaffold => true
  | _ => false

/-- A block that is a method of a class, an interface or a scaffold. -/
def Block.isMember (b : Block) : Bool :=
  match b.kind with
  | .declaration .method | .declaration .interfaceMethod | .declaration .scaffoldMethod => true
  | _ => false

/-- The members in front of the first type. -/
def membersIn (bs : List Block) : List Block := (bs.takeWhile (!·.isType)).filter (·.isMember)

/-- The types among the blocks, each with the members up to the next type. -/
def typesIn : List Block → List (Block × List Block)
  | [] => []
  | b :: bs => if b.isType then (b, membersIn bs) :: typesIn bs else typesIn bs

/-- Types of which the last one gets more members. -/
def withMembers (more : List Block) : List (Block × List Block) → List (Block × List Block)
  | [] => []
  | [(top, members)] => [(top, members ++ more)]
  | x :: y :: rest => x :: withMembers more (y :: rest)

/-! ## Files of one path -/

/-- The blocks of the files of one path as one file has them. -/
def mergedBlocks : List File → List Block
  | [] => []
  | f :: rest => rest.foldl
      (fun blocks g => addBlocks blocks (g.blocks.map (·.merged g.role))) f.blocks

/-- Some block of the files has the key. -/
def HasKey (files : List File) (key : String) : Prop := ∃ f ∈ files, ∃ b ∈ f.blocks, b.key = key

/-- The blocks of a file go behind those of other files as they should: the members of a type that
is new are new and differ from each other, and those of a type that is there are there. -/
def FitsBehind (before : List File) (g : File) : Prop :=
  ∀ x ∈ typesIn g.blocks,
    (HasKey before x.1.key → ∀ m ∈ x.2, HasKey before m.key) ∧
    (¬ HasKey before x.1.key → (x.2.map (·.key)).Nodup ∧ ∀ m ∈ x.2, ¬ HasKey before m.key)

/-- Each type among the blocks has the members that the file has for it which it is from. -/
def KeepsMembers (own : List File) (blocks : List Block) : Prop :=
  ∀ x ∈ typesIn blocks, ∃ g ∈ own.find? (·.blocks.contains x.1), x ∈ typesIn g.blocks

instance (own : List File) (blocks : List Block) : Decidable (KeepsMembers own blocks) :=
  inferInstanceAs (Decidable (∀ x ∈ typesIn blocks,
    ∃ g ∈ own.find? (·.blocks.contains x.1), x ∈ typesIn g.blocks))

/-- A declaration behind a type. -/
def Inner (b : Block) : Prop := (∃ kind, b.kind = .declaration kind) ∧ b.isType = false

/-- A declaration where there is no type. -/
def Outer (b : Block) : Prop :=
  (∃ kind, b.kind = .declaration kind) ∧ b.isType = false ∧ b.isMember = false

/-- A file as it is written: a header, and declarations, of which the first one may begin a type. -/
inductive Written : List Block → Prop
  | plain {header : Block} {others : List Block} (head : header.kind = .header)
      (rest : ∀ b ∈ others, Outer b) : Written (header :: others)
  | typed {header top : Block} {others : List Block} (head : header.kind = .header)
      (type : top.isType = true) (rest : ∀ b ∈ others, Inner b) :
      Written (header :: top :: others)

/-! ## Keys -/

theorem BlockKind.ofName_name {kind : BlockKind} (h : ∀ name, kind ≠ .other name) :
    BlockKind.ofName kind.name = kind ∧ ':' ∉ kind.name.toList := by
  cases kind with
  | header => exact ⟨rfl, by decide⟩
  | preamble => exact ⟨rfl, by decide⟩
  | declaration kind => cases kind <;> exact ⟨rfl, by decide⟩
  | other name => exact absurd rfl (h name)

/-- The key of a block tells its kind and its name. -/
theorem Block.key_inj {b b' : Block} (hb : ∀ name, b.kind ≠ .other name)
    (hb' : ∀ name, b'.kind ≠ .other name) (h : b.key = b'.key) :
    b.kind = b'.kind ∧ b.name = b'.name := by
  obtain ⟨hkind, hcolon⟩ := BlockKind.ofName_name hb
  obtain ⟨hkind', hcolon'⟩ := BlockKind.ofName_name hb'
  have hlist : b.kind.name.toList ++ ':' :: b.name.toList =
      b'.kind.name.toList ++ ':' :: b'.name.toList := by
    simpa [Block.key] using congrArg String.toList h
  have hcut : ∀ {cs rest : List Char}, ':' ∉ cs →
      (cs ++ ':' :: rest).takeWhile (· != ':') = cs ∧
        (cs ++ ':' :: rest).dropWhile (· != ':') = ':' :: rest := fun {cs rest} hcs => by
    have hpos : ∀ c ∈ cs, (c != ':') = true := fun c hc => by
      rw [bne_iff_ne]
      exact fun he => hcs (he ▸ hc)
    rw [List.takeWhile_append_of_pos hpos, List.dropWhile_append_of_pos hpos]
    simp
  have hname : b.kind.name = b'.kind.name := String.toList_injective <| by
    rw [← (hcut hcolon).1, ← (hcut hcolon').1, hlist]
  rw [hname] at hlist
  exact ⟨by rw [← hkind, ← hkind', hname],
    String.toList_injective (List.cons.inj (List.append_cancel_left hlist)).2⟩

/-! ## New blocks -/

/-- What is new among blocks, where some keys are taken: of each other key the first. -/
def newBlocks (taken : List String) : List Block → List Block
  | [] => []
  | b :: bs =>
    if b.key ∈ taken then newBlocks taken bs else b :: newBlocks (taken ++ [b.key]) bs

variable {taken taken' : List String} {b : Block} {bs blocks : List Block}

theorem addBlocks_eq : ∀ (bs blocks : List Block),
    addBlocks blocks bs = blocks ++ newBlocks (blocks.map (·.key)) bs
  | [], blocks => by simp [addBlocks, newBlocks]
  | b :: bs, blocks => by
    have ih : ∀ blocks, bs.foldl (fun bs b => if bs.any (·.key == b.key) then bs else bs ++ [b])
        blocks = blocks ++ newBlocks (blocks.map (·.key)) bs := addBlocks_eq bs
    have hany : blocks.any (·.key == b.key) = true ↔ b.key ∈ blocks.map (·.key) := by simp
    rw [addBlocks, List.foldl_cons, newBlocks]
    by_cases hmem : b.key ∈ blocks.map (·.key)
    · rw [if_pos (hany.2 hmem), if_pos hmem, ih]
    · rw [if_neg (fun h => hmem (hany.1 h)), if_neg hmem, ih]
      simp

theorem mem_newBlocks : ∀ {bs : List Block} {taken : List String}, b ∈ newBlocks taken bs →
    b ∈ bs ∧ b.key ∉ taken
  | c :: bs, taken, h => by
    rw [newBlocks] at h
    split at h
    · exact (mem_newBlocks h).imp_left (.tail _)
    · rename_i hc
      rcases List.mem_cons.1 h with rfl | h
      · exact ⟨.head _, hc⟩
      · obtain ⟨hmem, hkey⟩ := mem_newBlocks h
        exact ⟨.tail _ hmem, fun ht => hkey (List.mem_append_left _ ht)⟩

/-- Every key is taken in the end. -/
theorem key_mem_newBlocks (h : b ∈ bs) :
    b.key ∈ blocks.map (·.key) ∨ b.key ∈ (newBlocks (blocks.map (·.key)) bs).map (·.key) := by
  have hmem : b.key ∈ (addBlocks blocks bs).map (·.key) := key_mem_foldl_new (.inr h)
  rwa [addBlocks_eq, List.map_append, List.mem_append] at hmem

theorem newBlocks_eq_nil_iff : newBlocks taken bs = [] ↔ ∀ b ∈ bs, b.key ∈ taken := by
  induction bs with
  | nil => simp [newBlocks]
  | cons b bs ih =>
    rw [newBlocks, List.forall_mem_cons]
    split
    · rename_i h
      rw [ih, and_iff_right h]
    · rename_i h
      simp [h]

theorem newBlocks_sublist : ∀ (bs : List Block) (taken : List String),
    (newBlocks taken bs).Sublist bs
  | [], _ => .slnil
  | b :: bs, taken => by
    rw [newBlocks]
    split
    · exact (newBlocks_sublist bs taken).cons b
    · exact (newBlocks_sublist bs _).cons_cons b

/-- All blocks are new if their keys differ and none of them is taken. -/
theorem newBlocks_eq_self_iff : ∀ {bs : List Block} {taken : List String},
    newBlocks taken bs = bs ↔ (bs.map (·.key)).Nodup ∧ ∀ b ∈ bs, b.key ∉ taken
  | [], _ => by simp [newBlocks]
  | b :: bs, taken => by
    rw [newBlocks, List.forall_mem_cons, List.map_cons, List.nodup_cons]
    split
    · rename_i h
      refine iff_of_false (fun he => ?_) fun hnot => hnot.2.1 h
      have hle := (newBlocks_sublist bs taken).length_le
      rw [he, List.length_cons] at hle
      omega
    · rename_i h
      rw [List.cons_inj_right, newBlocks_eq_self_iff]
      simp only [List.mem_append, List.mem_singleton, not_or, List.mem_map, not_exists, not_and]
      constructor
      · rintro ⟨hn, hall⟩
        exact ⟨⟨fun c hc he => (hall c hc).2 he, hn⟩, h, fun c hc => (hall c hc).1⟩
      · rintro ⟨⟨hne, hn⟩, -, hall⟩
        exact ⟨hn, fun c hc => ⟨hall c hc, hne c hc⟩⟩

/-- The members among the new blocks are the new ones among the members, since no other block has
the key of a member. -/
theorem filter_newBlocks : ∀ {bs : List Block} {taken taken' : List String},
    (∀ b ∈ bs, ∀ name, b.kind ≠ .other name) →
      (∀ b ∈ bs, b.isMember = true → (b.key ∈ taken' ↔ b.key ∈ taken)) →
        (newBlocks taken' bs).filter (·.isMember) = newBlocks taken (bs.filter (·.isMember))
  | [], _, _, _, _ => rfl
  | b :: bs, taken, taken', hkind, hkeys => by
    obtain ⟨hb, hkind⟩ := List.forall_mem_cons.1 hkind
    obtain ⟨hbkeys, hkeys⟩ := List.forall_mem_cons.1 hkeys
    cases hmember : b.isMember with
    | true =>
      rw [List.filter_cons_of_pos hmember, newBlocks, newBlocks]
      simp only [hbkeys hmember]
      split
      · exact filter_newBlocks hkind hkeys
      · rw [List.filter_cons_of_pos hmember]
        refine congrArg (b :: ·) (filter_newBlocks hkind fun c hc hm => ?_)
        simp [hkeys c hc hm]
    | false =>
      rw [List.filter_cons_of_neg (by simp [hmember]), newBlocks]
      split
      · exact filter_newBlocks hkind hkeys
      · rw [List.filter_cons_of_neg (by simp [hmember])]
        refine filter_newBlocks hkind fun c hc hm => ?_
        have hne : c.key ≠ b.key := fun he => by
          have hsame := (Block.key_inj (hkind c hc) hb he).1
          simp only [Block.isMember, hsame] at hm hmember
          simp [hm] at hmember
        simp [hkeys c hc hm, hne]

/-! ## Types behind each other -/

theorem membersIn_type (h : b.isType = true) (bs : List Block) : membersIn (b :: bs) = [] := by
  rw [membersIn, List.takeWhile_cons_of_neg (by simp [h])]
  rfl

theorem membersIn_cons (h : b.isType = false) (bs : List Block) :
    membersIn (b :: bs) = [b].filter (·.isMember) ++ membersIn bs := by
  rw [membersIn, membersIn, List.takeWhile_cons_of_pos (by simp [h]), ← List.filter_append,
    List.singleton_append]

theorem typesIn_type (h : b.isType = true) (bs : List Block) :
    typesIn (b :: bs) = (b, membersIn bs) :: typesIn bs := by
  rw [typesIn, if_pos h]

theorem typesIn_cons (h : b.isType = false) (bs : List Block) :
    typesIn (b :: bs) = typesIn bs := by
  rw [typesIn, if_neg (by simp [h])]

theorem membersIn_of_not_isType : ∀ {bs : List Block}, (∀ b ∈ bs, b.isType = false) →
    membersIn bs = bs.filter (·.isMember) := fun {bs} h => by
  rw [membersIn, List.takeWhile_eq_self_iff.2 fun b hb => by simp [h b hb]]

theorem typesIn_of_not_isType : ∀ {bs : List Block}, (∀ b ∈ bs, b.isType = false) →
    typesIn bs = []
  | [], _ => rfl
  | b :: bs, h => by
    obtain ⟨hb, hbs⟩ := List.forall_mem_cons.1 h
    rw [typesIn_cons hb, typesIn_of_not_isType hbs]

/-- The types are among the blocks, and their members behind them. -/
theorem mem_typesIn : ∀ {bs : List Block} {x : Block × List Block}, x ∈ typesIn bs →
    x.1 ∈ bs ∧ x.1.isType = true ∧ ∀ m ∈ x.2, m ∈ bs ∧ m.isMember = true
  | b :: bs, x, h => by
    cases hb : b.isType with
    | false =>
      rw [typesIn_cons hb] at h
      obtain ⟨hmem, htype, hmembers⟩ := mem_typesIn h
      exact ⟨.tail _ hmem, htype, fun m hm => (hmembers m hm).imp_left (.tail _)⟩
    | true =>
      rw [typesIn_type hb] at h
      rcases List.mem_cons.1 h with rfl | h
      · refine ⟨.head _, hb, fun m hm => ?_⟩
        obtain ⟨hmem, hmember⟩ := List.mem_filter.1 hm
        exact ⟨.tail _ ((List.takeWhile_sublist _).subset hmem), hmember⟩
      · obtain ⟨hmem, htype, hmembers⟩ := mem_typesIn h
        exact ⟨.tail _ hmem, htype, fun m hm => (hmembers m hm).imp_left (.tail _)⟩

/-- A type among blocks is one of their types. -/
theorem exists_mem_typesIn : ∀ {bs : List Block}, b ∈ bs → b.isType = true →
    ∃ members, (b, members) ∈ typesIn bs
  | c :: bs, h, hb => by
    rcases List.mem_cons.1 h with rfl | h
    · exact ⟨membersIn bs, typesIn_type hb bs ▸ List.mem_cons_self⟩
    · obtain ⟨members, hmem⟩ := exists_mem_typesIn h hb
      refine ⟨members, ?_⟩
      cases hc : c.isType with
      | false => rwa [typesIn_cons hc]
      | true => exact typesIn_type hc bs ▸ List.mem_cons_of_mem _ hmem

theorem membersIn_append (ys : List Block) : ∀ xs : List Block, membersIn (xs ++ ys) =
    if typesIn xs = [] then membersIn xs ++ membersIn ys else membersIn xs
  | [] => rfl
  | b :: xs => by
    rw [List.cons_append]
    cases hb : b.isType with
    | false =>
      rw [membersIn_cons hb, membersIn_cons hb, typesIn_cons hb, membersIn_append ys xs]
      split
      · rw [List.append_assoc]
      · rfl
    | true => simp [membersIn_type hb, typesIn_type hb]

/-- Members in front of the first type of further blocks belong to the last type so far. -/
theorem typesIn_append (ys : List Block) : ∀ xs : List Block,
    typesIn (xs ++ ys) = withMembers (membersIn ys) (typesIn xs) ++ typesIn ys
  | [] => rfl
  | b :: xs => by
    rw [List.cons_append]
    cases hb : b.isType with
    | false => rw [typesIn_cons hb, typesIn_cons hb, typesIn_append ys xs]
    | true =>
      rw [typesIn_type hb, typesIn_type hb, membersIn_append, typesIn_append ys xs]
      cases typesIn xs <;> rfl

theorem withMembers_nil : ∀ xs : List (Block × List Block), withMembers [] xs = xs
  | [] => rfl
  | [(top, members)] => by simp [withMembers]
  | x :: y :: rest => by rw [withMembers, withMembers_nil (y :: rest)]

/-- The last type has the further members. -/
theorem exists_withMembers (more : List Block) : ∀ {xs : List (Block × List Block)}, xs ≠ [] →
    ∃ x ∈ xs, (x.1, x.2 ++ more) ∈ withMembers more xs
  | [(top, members)], _ => ⟨_, .head _, .head _⟩
  | x :: y :: rest, _ => by
    obtain ⟨z, hz, hmem⟩ := exists_withMembers more (List.cons_ne_nil y rest)
    exact ⟨z, .tail _ hz, .tail _ hmem⟩

/-! ## Blocks as they are written -/

theorem not_other_of_declaration {kind : DeclarationKind} (h : b.kind = .declaration kind)
    (name : String) : b.kind ≠ .other name := by
  rw [h]
  exact BlockKind.noConfusion

theorem kind_of_isType (h : b.isType = true) : ∃ kind, b.kind = .declaration kind := by
  unfold Block.isType at h
  split at h <;> first | exact ⟨_, ‹_›⟩ | cases h

theorem kind_of_isMember (h : b.isMember = true) : ∃ kind, b.kind = .declaration kind := by
  unfold Block.isMember at h
  split at h <;> first | exact ⟨_, ‹_›⟩ | cases h

theorem not_isMember_of_isType (h : b.isType = true) : b.isMember = false := by
  unfold Block.isType at h
  unfold Block.isMember
  split at h
  · rw [‹b.kind = _›]
  · rw [‹b.kind = _›]
  · rw [‹b.kind = _›]
  · cases h

theorem Written.cut (h : Written bs) : ∃ header rest, bs = header :: rest ∧
    header.kind = .header ∧ ∀ b ∈ rest, ∃ kind, b.kind = .declaration kind := by
  cases h with
  | plain head rest => exact ⟨_, _, rfl, head, fun b hb => (rest b hb).1⟩
  | typed head type rest =>
    exact ⟨_, _, rfl, head, List.forall_mem_cons.2 ⟨kind_of_isType type, fun b hb => (rest b hb).1⟩⟩

theorem Written.kinds (h : Written bs) (hb : b ∈ bs) :
    b.kind = .header ∨ ∃ kind, b.kind = .declaration kind := by
  obtain ⟨header, rest, rfl, head, hrest⟩ := h.cut
  rcases List.mem_cons.1 hb with rfl | hb
  · exact .inl head
  · exact .inr (hrest b hb)

/-- The header of a file as it goes into another one. -/
def preamble (role : Role) (header : Block) : Block :=
  { kind := .preamble, name := role.name, text := "\n" ++ header.text }

theorem map_merged {header : Block} {rest : List Block} (head : header.kind = .header)
    (hrest : ∀ b ∈ rest, ∃ kind, b.kind = .declaration kind) (role : Role) :
    (header :: rest).map (·.merged role) = preamble role header :: rest := by
  have hother : ∀ b ∈ rest, b.merged role = b := fun b hb => by
    obtain ⟨kind, hkind⟩ := hrest b hb
    simp [Block.merged, hkind]
  rw [List.map_cons, List.map_congr_left hother, List.map_id', Block.merged, head]
  rfl

/-! ## Blocks of merged files -/

variable {own : List File} {f g : File}

theorem mergedBlocks_concat (h : own ≠ []) : mergedBlocks (own ++ [g]) = mergedBlocks own ++
    newBlocks ((mergedBlocks own).map (·.key)) (g.blocks.map (·.merged g.role)) := by
  obtain ⟨f, rest, rfl⟩ := List.exists_cons_of_ne_nil h
  rw [List.cons_append, mergedBlocks, List.foldl_append, List.foldl_cons, List.foldl_nil,
    addBlocks_eq]
  rfl

/-- A block of a merged file is from one of the files, or has the place of a header. -/
theorem mem_mergedBlocks (hw : ∀ f ∈ own, Written f.blocks) (h : b ∈ mergedBlocks own) :
    (∃ f ∈ own, b ∈ f.blocks) ∨
      b.kind = .preamble ∧ ∃ f ∈ own.tail, b.name = f.role.name := by
  induction own using List.reverseRecOn with
  | nil => cases h
  | append_singleton own g ih =>
    by_cases hne : own = []
    · subst hne
      exact .inl ⟨g, .head _, h⟩
    obtain ⟨hown, hg⟩ := List.forall_mem_append.1 hw
    rw [mergedBlocks_concat hne, List.mem_append] at h
    rcases h with h | h
    · refine (ih hown h).imp (fun ⟨f, hf, hb⟩ => ⟨f, List.mem_append_left _ hf, hb⟩) ?_
      rintro ⟨hkind, f, hf, hname⟩
      exact ⟨hkind, f, List.tail_append_of_ne_nil hne ▸ List.mem_append_left _ hf, hname⟩
    · obtain ⟨header, rest, hblocks, head, hrest⟩ := (hg g (.head _)).cut
      have hmem := (mem_newBlocks h).1
      rw [hblocks, map_merged head hrest] at hmem
      rcases List.mem_cons.1 hmem with rfl | hmem
      · exact .inr ⟨rfl, g, List.tail_append_of_ne_nil hne ▸ List.mem_append_right _ (.head _), rfl⟩
      · exact .inl ⟨g, by simp, hblocks ▸ .tail _ hmem⟩

theorem key_mem_mergedBlocks (hf : f ∈ own) (hb : b ∈ f.blocks) (hk : b.kind ≠ .header) :
    b.key ∈ (mergedBlocks own).map (·.key) := by
  induction own using List.reverseRecOn with
  | nil => cases hf
  | append_singleton own g ih =>
    by_cases hne : own = []
    · subst hne
      obtain rfl := List.mem_singleton.1 hf
      exact List.mem_map_of_mem hb
    rw [mergedBlocks_concat hne, List.map_append, List.mem_append]
    rcases List.mem_append.1 hf with hf | hf
    · exact .inl (ih hf)
    · obtain rfl := List.mem_singleton.1 hf
      refine key_mem_newBlocks (List.mem_map.2 ⟨b, hb, ?_⟩)
      rw [Block.merged, if_neg (by simp [hk])]

/-- A declaration has a key that is taken where some file has a block with this key. -/
theorem hasKey_iff (hw : ∀ f ∈ own, Written f.blocks)
    (hb : ∃ kind, b.kind = .declaration kind) :
    HasKey own b.key ↔ b.key ∈ (mergedBlocks own).map (·.key) := by
  obtain ⟨kind, hkind⟩ := hb
  constructor
  · rintro ⟨f, hf, c, hc, hkey⟩
    have hheader : c.kind ≠ .header := fun hk => by
      have hsame := (Block.key_inj (by simp [hk]) (not_other_of_declaration hkind) hkey).1
      rw [hk, hkind] at hsame
      cases hsame
    exact hkey ▸ key_mem_mergedBlocks hf hc hheader
  · intro h
    obtain ⟨c, hc, hkey⟩ := List.mem_map.1 h
    rcases mem_mergedBlocks hw hc with ⟨f, hf, hc⟩ | ⟨hk, -⟩
    · exact ⟨f, hf, c, hc, hkey⟩
    · have hsame := (Block.key_inj (by simp [hk]) (not_other_of_declaration hkind) hkey).1
      rw [hk, hkind] at hsame
      cases hsame

/-- Where the key of a type is taken, there is a type. -/
theorem typesIn_ne_nil (hw : ∀ f ∈ own, Written f.blocks) (hb : b.isType = true)
    (h : b.key ∈ (mergedBlocks own).map (·.key)) : typesIn (mergedBlocks own) ≠ [] := by
  obtain ⟨c, hc, hkey⟩ := List.mem_map.1 h
  obtain ⟨kind, hkind⟩ := kind_of_isType hb
  have hcother : ∀ name, c.kind ≠ .other name := by
    rcases mem_mergedBlocks hw hc with ⟨f, hf, hc⟩ | ⟨hk, -⟩
    · rcases (hw f hf).kinds hc with hk | ⟨kind, hk⟩ <;> simp [hk]
    · simp [hk]
  have hctype : c.isType = true := by
    rw [← hb, Block.isType, Block.isType,
      (Block.key_inj hcother (not_other_of_declaration hkind) hkey).1]
  obtain ⟨members, hmem⟩ := exists_mem_typesIn hc hctype
  exact List.ne_nil_of_mem hmem

/-! ## One more file -/

/-- A type and what is behind it as they go behind other blocks. -/
theorem newBlocks_type {top : Block} {others : List Block} (type : top.isType = true)
    (rest : ∀ b ∈ others, Inner b)
    (hsame : ∀ b ∈ top :: others, (b.key ∈ taken' ↔ b.key ∈ taken)) :
    let members := newBlocks taken (others.filter (·.isMember))
    (top.key ∈ taken → typesIn (newBlocks taken' (top :: others)) = [] ∧
      membersIn (newBlocks taken' (top :: others)) = members) ∧
    (top.key ∉ taken → typesIn (newBlocks taken' (top :: others)) = [(top, members)] ∧
      membersIn (newBlocks taken' (top :: others)) = []) := by
  obtain ⟨htop, hothers⟩ := List.forall_mem_cons.1 hsame
  have hkinds : ∀ b ∈ others, ∀ name, b.kind ≠ .other name := fun b hb => by
    obtain ⟨kind, hkind⟩ := (rest b hb).1
    exact not_other_of_declaration hkind
  have hnew : ∀ taken, ∀ b ∈ newBlocks taken others, b.isType = false :=
    fun taken b hb => (rest b (mem_newBlocks hb).1).2
  refine ⟨fun h => ?_, fun h => ?_⟩
  · rw [newBlocks, if_pos (htop.2 h)]
    exact ⟨typesIn_of_not_isType (hnew _),
      (membersIn_of_not_isType (hnew _)).trans (filter_newBlocks hkinds fun b hb _ => hothers b hb)⟩
  · -- no member has the key of a type
    have hne : ∀ b ∈ others, b.isMember = true → b.key ≠ top.key := fun b hb hmember he => by
      obtain ⟨kind, hkind⟩ := kind_of_isType type
      have hkind := (Block.key_inj (hkinds b hb) (not_other_of_declaration hkind) he).1
      have hnot := not_isMember_of_isType type
      rw [Block.isMember, hkind, ← Block.isMember] at hmember
      rw [hmember] at hnot
      cases hnot
    rw [newBlocks, if_neg (fun ht => h (htop.1 ht)), typesIn_type type,
      typesIn_of_not_isType (hnew _), membersIn_of_not_isType (hnew _), membersIn_type type]
    refine ⟨congrArg (fun members => [(top, members)]) (filter_newBlocks hkinds ?_), rfl⟩
    intro b hb hmember
    simp [hothers b hb, hne b hb hmember]

/-- The preamble takes the key of no declaration. -/
theorem key_ne_preamble {kind : DeclarationKind} (h : b.kind = .declaration kind) (role : Role)
    (header : Block) : b.key ≠ (preamble role header).key := by
  intro he
  have hkind := (Block.key_inj (not_other_of_declaration h) (by simp [preamble]) he).1
  rw [h] at hkind
  cases hkind

/-- A file without a type brings no member, and one with a type brings its new members: behind the
type where it is new, else behind the types that are there. -/
theorem newBlocks_written (h : Written g.blocks) (taken : List String) :
    let new := newBlocks taken (g.blocks.map (·.merged g.role))
    (typesIn g.blocks = [] ∧ typesIn new = [] ∧ membersIn new = []) ∨
      ∃ top members, typesIn g.blocks = [(top, members)] ∧
        (top.key ∈ taken → typesIn new = [] ∧ membersIn new = newBlocks taken members) ∧
        (top.key ∉ taken → typesIn new = [(top, newBlocks taken members)] ∧
          membersIn new = []) := by
  obtain ⟨path, role, blocks⟩ := g
  cases h with
  | @plain header others head rest =>
    left
    have hheader : header.isType = false := by simp [Block.isType, head]
    have hnone : ∀ b ∈ newBlocks taken (preamble role header :: others),
        b.isType = false ∧ b.isMember = false := fun b hb => by
      rcases List.mem_cons.1 (mem_newBlocks hb).1 with rfl | hb
      · exact ⟨rfl, rfl⟩
      · exact (rest b hb).2
    have htypes : ∀ b ∈ newBlocks taken (preamble role header :: others), b.isType = false :=
      fun b hb => (hnone b hb).1
    dsimp only
    rw [map_merged head fun b hb => (rest b hb).1, typesIn_cons hheader,
      typesIn_of_not_isType fun b hb => (rest b hb).2.1, typesIn_of_not_isType htypes,
      membersIn_of_not_isType htypes,
      List.filter_eq_nil_iff.2 fun b hb => by simp [(hnone b hb).2]]
    exact ⟨rfl, rfl, rfl⟩
  | @typed header top others head type rest =>
    right
    have hheader : header.isType = false := by simp [Block.isType, head]
    have hkinds : ∀ b ∈ top :: others, ∃ kind, b.kind = .declaration kind :=
      List.forall_mem_cons.2 ⟨kind_of_isType type, fun b hb => (rest b hb).1⟩
    have hown : typesIn (header :: top :: others) = [(top, others.filter (·.isMember))] := by
      rw [typesIn_cons hheader, typesIn_type type, typesIn_of_not_isType fun b hb => (rest b hb).2,
        membersIn_of_not_isType fun b hb => (rest b hb).2]
    refine ⟨top, others.filter (·.isMember), hown, ?_⟩
    dsimp only
    rw [map_merged head hkinds, newBlocks]
    split
    · exact newBlocks_type type rest fun _ _ => Iff.rfl
    · have hsame : ∀ b ∈ top :: others,
          (b.key ∈ taken ++ [(preamble role header).key] ↔ b.key ∈ taken) := fun b hb => by
        obtain ⟨kind, hkind⟩ := hkinds b hb
        simp [key_ne_preamble hkind]
      have hpre : (preamble role header).isType = false := rfl
      rw [typesIn_cons hpre, membersIn_cons hpre]
      exact newBlocks_type type rest hsame

/-- A file that fits behind others has no members that are new behind a type which is there, and
only such members behind a type that is new. -/
theorem fitsBehind_iff (hw : ∀ f ∈ own, Written f.blocks) {top : Block} {members : List Block}
    (h : typesIn g.blocks = [(top, members)]) :
    FitsBehind own g ↔
      (top.key ∈ (mergedBlocks own).map (·.key) →
        newBlocks ((mergedBlocks own).map (·.key)) members = []) ∧
      (top.key ∉ (mergedBlocks own).map (·.key) →
        newBlocks ((mergedBlocks own).map (·.key)) members = members) := by
  obtain ⟨-, htop, hmembers⟩ := mem_typesIn (h ▸ List.mem_cons_self)
  have hkey : ∀ m ∈ members, HasKey own m.key ↔ m.key ∈ (mergedBlocks own).map (·.key) :=
    fun m hm => hasKey_iff hw (kind_of_isMember (hmembers m hm).2)
  rw [FitsBehind, h, List.forall_mem_singleton, hasKey_iff hw (kind_of_isType htop),
    newBlocks_eq_nil_iff, newBlocks_eq_self_iff]
  refine and_congr (imp_congr_right fun _ => forall₂_congr hkey)
    (imp_congr_right fun _ => and_congr_right fun _ => forall₂_congr fun m hm => ?_)
  rw [hkey m hm]

/-- The file of a type that is there stays the same with one more file. -/
theorem find?_concat (hw : ∀ f ∈ own, Written f.blocks) {x : Block × List Block}
    (hx : x ∈ typesIn (mergedBlocks own)) (g : File) :
    (own ++ [g]).find? (·.blocks.contains x.1) = own.find? (·.blocks.contains x.1) := by
  obtain ⟨hmem, htype, -⟩ := mem_typesIn hx
  obtain ⟨f, hf, hb⟩ : ∃ f ∈ own, x.1 ∈ f.blocks := by
    rcases mem_mergedBlocks hw hmem with h | ⟨hk, -⟩
    · exact h
    · rw [Block.isType, hk] at htype
      cases htype
  rw [List.find?_append]
  cases hfind : own.find? (·.blocks.contains x.1) with
  | none => exact absurd (List.contains_iff_mem.2 hb) (List.find?_eq_none.1 hfind f hf)
  | some f => rfl

/-- **One more file.** The types of all files have their members if and only if those of the files
before it have them and it fits behind these. -/
theorem keepsMembers_concat (hw : ∀ f ∈ own ++ [g], Written f.blocks) (hne : own ≠ []) :
    KeepsMembers (own ++ [g]) (mergedBlocks (own ++ [g])) ↔
      KeepsMembers own (mergedBlocks own) ∧ FitsBehind own g := by
  obtain ⟨hown, hg⟩ := List.forall_mem_append.1 hw
  have hold : (∀ x ∈ typesIn (mergedBlocks own),
      ∃ f ∈ (own ++ [g]).find? (·.blocks.contains x.1), x ∈ typesIn f.blocks) ↔
        KeepsMembers own (mergedBlocks own) :=
    forall₂_congr fun x hx => by rw [find?_concat hown hx]
  rw [mergedBlocks_concat hne, KeepsMembers, typesIn_append]
  rcases newBlocks_written (hg g (.head _)) ((mergedBlocks own).map (·.key)) with
    ⟨hnone, htypes, hmembers⟩ | ⟨top, members, htop, htaken, hnew⟩
  · have hfits : FitsBehind own g := by simp [FitsBehind, hnone]
    rw [htypes, hmembers, withMembers_nil, List.append_nil, hold, and_iff_left hfits]
  obtain ⟨-, htype, -⟩ := mem_typesIn (htop ▸ List.mem_cons_self)
  rw [fitsBehind_iff hown htop]
  by_cases hkey : top.key ∈ (mergedBlocks own).map (·.key)
  · obtain ⟨htypes, hmembers⟩ := htaken hkey
    rw [htypes, hmembers, List.append_nil]
    by_cases hnil : newBlocks ((mergedBlocks own).map (·.key)) members = []
    · rw [hnil, withMembers_nil, hold]
      simp [hkey]
    · -- the new members come behind another type, whose file does not have them
      refine iff_of_false (fun hkeeps => ?_) fun h => hnil (h.2.1 hkey)
      obtain ⟨x, hx, hlast⟩ := exists_withMembers
        (newBlocks ((mergedBlocks own).map (·.key)) members) (typesIn_ne_nil hown htype hkey)
      obtain ⟨f, hfind, hmem⟩ := hkeeps _ hlast
      rw [find?_concat hown hx] at hfind
      obtain ⟨m, hm⟩ := List.exists_mem_of_ne_nil _ hnil
      have hmf := (mem_typesIn hmem).2.2 m (List.mem_append_right _ hm)
      obtain ⟨kind, hkind⟩ := kind_of_isMember hmf.2
      exact (mem_newBlocks hm).2 (key_mem_mergedBlocks (List.mem_of_find?_eq_some hfind) hmf.1
        (by simp [hkind]))
  · obtain ⟨htypes, hmembers⟩ := hnew hkey
    have hfirst : own.find? (·.blocks.contains top) = none := by
      refine List.find?_eq_none.2 fun f hf hcontains => hkey ?_
      obtain ⟨kind, hkind⟩ : ∃ kind, top.kind = .declaration kind := kind_of_isType htype
      exact key_mem_mergedBlocks hf (List.contains_iff_mem.1 hcontains) (by simp [hkind])
    have hmem : top ∈ g.blocks := (mem_typesIn (htop ▸ List.mem_cons_self)).1
    have hfind : (own ++ [g]).find? (·.blocks.contains top) = some g := by
      rw [List.find?_append, hfirst, Option.none_or]
      exact List.find?_cons_of_pos (List.contains_iff_mem.2 hmem)
    rw [htypes, hmembers, withMembers_nil, List.forall_mem_append, hold, List.forall_mem_singleton,
      hfind]
    simp [hkey, htop]

/-- **Members of merged files.** Each type has the members of its own file if and only if every
further file fits behind the files before it. -/
theorem keepsMembers_iff (hw : ∀ f ∈ own, Written f.blocks) :
    KeepsMembers own (mergedBlocks own) ↔
      ∀ before g after, own = before ++ g :: after → before ≠ [] → FitsBehind before g := by
  induction own using List.reverseRecOn with
  | nil => simp [KeepsMembers, mergedBlocks, typesIn]
  | append_singleton own g ih =>
    have hcut := @forall_cut_append File (fun before g => before ≠ [] → FitsBehind before g) own [g]
    rw [hcut, forall_cut_cons, List.append_nil]
    by_cases hne : own = []
    · subst hne
      have hfind : KeepsMembers [g] g.blocks := fun x hx =>
        ⟨g, by simp [(mem_typesIn hx).1], hx⟩
      simpa [mergedBlocks] using hfind
    · rw [keepsMembers_concat hw hne, ih (List.forall_mem_append.1 hw).1]
      simp [hne]

end Lifeline.Source
