import Lifeline.Diagram.Reader
import Lifeline.Proofs.Diagram.Spelling

/-!
# Plain diagrams

A diagram without what the spelling of its text leaves in it (`Diagram.plain`): every element stands
on line zero, and every arrow has the plain glyph. A reader without them reads plain lines just as
the reader reads the lines (`Reader.plain_step`).

* `Diagram.parse_respelled`: two texts that differ in spelling are read alike.
-/

set_option autoImplicit false

namespace Lifeline

def Entry.plain (e : Entry) : Entry := { e with line := 0 }

def Call.plain (c : Call) : Call := { c with line := 0, glyph := "->" }

def Reply.plain (r : Reply) : Reply := { r with line := 0, glyph := "->" }

def Raise.plain (t : Raise) : Raise := { t with line := 0 }

def Result.plain (r : Result) : Result := { r with line := 0 }

/-- The element without its line and its glyph. -/
def Element.plain : Element → Element
  | .participant _ name => .participant 0 name
  | .entry e => .entry e.plain
  | .call c => .call c.plain
  | .reply r => .reply r.plain
  | .raise t => .raise t.plain
  | .result r => .result r.plain
  | .loop _ label => .loop 0 label
  | .alt _ guard => .alt 0 guard
  | .orElse _ guard => .orElse 0 guard
  | .close _ => .close 0

def Diagram.plain (d : Diagram) : Diagram := { elements := d.elements.map Element.plain }

def OpenBlock.plain (b : OpenBlock) : OpenBlock := { b with line := 0 }

namespace Reader

/-- The reader without the lines and the glyphs of what it has read. -/
def plain (r : Reader) : Reader :=
  { r with elements := r.elements.map Element.plain, blocks := r.blocks.map OpenBlock.plain }

variable (r : Reader)

@[simp] theorem activations_plain : r.plain.activations = r.activations := rfl

@[simp] theorem root_plain : r.plain.root = r.root := rfl

@[simp] theorem blocks_plain : r.plain.blocks = r.blocks.map OpenBlock.plain := rfl

@[simp] theorem plain_push (e : Element) : (r.push e).plain = r.plain.push e.plain := by
  simp [plain, push]

@[simp] theorem plain_note (name : String) : (r.note name).plain = r.plain.note name := rfl

@[simp] theorem hasCall_plain : r.plain.hasCall = r.hasCall := by
  unfold hasCall plain
  rw [List.any_map]
  congr 1
  funext e
  cases e <;> rfl

variable {r} in
/-- One more element. -/
theorem mirrors_push {s : Reader} {e e' : Element} (hs : s = r.plain) (he : e' = e.plain) :
    Mirrors DiagramFault.issue plain (.ok (r.push e)) (.ok (s.push e')) :=
  .ok (by rw [plain_push, hs, he])

theorem plain_activate (participant : String) :
    Mirrors DiagramFault.issue (fun x : Reader × Option Int => (x.1.plain, x.2))
      (r.activate participant) (r.plain.activate participant) := by
  unfold activate
  rw [activations_plain, root_plain]
  split
  · exact .ok rfl
  · split
    · exact .ok rfl
    · exact .error rfl

theorem plain_readEntry (line : Int) (target label : String) :
    Mirrors DiagramFault.issue plain (r.readEntry line target label)
      (r.plain.readEntry 0 target label) := by
  unfold readEntry
  rw [hasCall_plain]
  split
  · exact .error rfl
  · split
    · exact (mirrors_self _).bind fun arguments => mirrors_push rfl rfl
    · exact .error rfl

theorem plain_readResult (line : Int) (parent : Option Int) (source label : String) :
    Mirrors DiagramFault.issue plain (r.readResult line parent source label)
      (r.plain.readResult 0 parent source label) := by
  unfold readResult
  split
  · exact mirrors_push rfl rfl
  · exact .error rfl

theorem plain_readRaise (line : Int) (parent : Option Int) (source target label : String) :
    Mirrors DiagramFault.issue plain (r.readRaise line parent source target label)
      (r.plain.readRaise 0 parent source target label) := by
  unfold readRaise
  split
  · exact .error rfl
  · split
    · exact .error rfl
    · exact mirrors_push rfl rfl

theorem plain_readCall (line : Int) (parent : Option Int) (source glyph target label : String) :
    Mirrors DiagramFault.issue plain (r.readCall line parent source glyph target label)
      (r.plain.readCall 0 parent source "->" target label) := by
  unfold readCall
  split
  · exact .error rfl
  · exact .error rfl
  · exact (mirrors_self _).bind fun arguments => mirrors_push rfl rfl

theorem plain_readReply (line : Int) (source glyph target label : String) :
    Mirrors DiagramFault.issue plain (r.readReply line source glyph target label)
      (r.plain.readReply 0 source "->" target label) := by
  unfold readReply
  rw [activations_plain]
  split
  · split
    · exact mirrors_push rfl rfl
    · exact .error rfl
  · exact .error rfl

theorem plain_readArrow (line : Int) (source glyph target : String) (label : Option String) :
    Mirrors DiagramFault.issue plain (r.readArrow line source glyph target label)
      (r.plain.readArrow 0 source "->" target label) := by
  unfold readArrow
  simp only
  split
  · exact plain_readEntry r line target _
  · refine (plain_activate (r.note source) source).bind fun (r, parent) => ?_
    simp only
    split
    · exact plain_readResult r line parent source _
    split
    · exact .error rfl
    split
    · exact plain_readRaise r line parent source target _
    split
    · exact plain_readCall r line parent source glyph target _
    · exact plain_readReply r line source glyph target _

theorem plain_readFragment (number : Nat) (keyword label : String) :
    Mirrors DiagramFault.issue plain (r.readFragment number keyword label)
      (r.plain.readFragment 0 keyword label) := by
  unfold readFragment
  split
  · exact mirrors_push rfl rfl
  split
  · exact mirrors_push rfl rfl
  · exact .error rfl

theorem plain_readElse (number : Nat) (label : String) :
    Mirrors DiagramFault.issue plain (r.readElse number label) (r.plain.readElse 0 label) := by
  unfold readElse
  rw [blocks_plain]
  cases r.blocks with
  | nil => exact .error rfl
  | cons b rest =>
    obtain ⟨k, n⟩ := b
    cases k with
    | loop => exact .error rfl
    | alt => exact mirrors_push rfl rfl

theorem plain_readEnd (number : Nat) :
    Mirrors DiagramFault.issue plain (r.readEnd number) (r.plain.readEnd 0) := by
  unfold readEnd
  rw [blocks_plain]
  cases r.blocks with
  | nil => exact .error rfl
  | cons b rest => exact mirrors_push rfl rfl

theorem plain_readStatement (number : Nat) (statement : Line.Statement) :
    Mirrors DiagramFault.issue plain (r.readStatement number statement)
      (r.plain.readStatement 0 statement.plain) := by
  cases statement with
  | arrow source glyph target label => exact plain_readArrow r _ source glyph target label
  | participant keyword name => exact mirrors_push (plain_note r name).symm rfl
  | fragment keyword label => exact plain_readFragment r _ keyword label
  | orElse label => exact plain_readElse r _ label
  | close => exact plain_readEnd r _

/-- A plain reader reads the plain line as the reader reads the line. -/
theorem plain_step (l : Line) :
    Mirrors (fun e : DiagramError => e.fault.issue) plain (r.step l) (r.plain.step l.plain) := by
  have h := plain_readStatement r l.number l.statement
  unfold step
  rw [Line.number_plain, Line.statement_plain]
  generalize r.readStatement l.number l.statement = x at h
  generalize r.plain.readStatement 0 l.statement.plain = y at h
  cases h with
  | ok h => exact .ok h
  | error h => exact .error h

theorem plain_finish :
    Mirrors (fun e : DiagramError => e.fault.issue) Diagram.plain r.finish r.plain.finish := by
  unfold finish
  rw [blocks_plain]
  cases r.blocks with
  | nil => exact .ok rfl
  | cons b rest => exact .error rfl

end Reader

namespace Diagram

theorem plain_ofLines (lines : List Line) :
    Mirrors (fun e : DiagramError => e.fault.issue) plain (ofLines lines)
      (ofLines (lines.map Line.plain)) := by
  unfold ofLines
  exact (mirrors_foldlM Reader.plain_step lines {}).bind Reader.plain_finish

/-- Two texts that differ in spelling are both refused for reasons of one issue, or both read as
diagrams that are the same up to lines and glyphs. -/
theorem parse_respelled {source source' : String}
    (h : Line.Respelled (Text.lines source.toList) (Text.lines source'.toList)) :
    Alike (fun e : DiagramError => e.fault.issue) (fun d d' => d.plain = d'.plain)
      (parse source) (parse source') := by
  refine (Line.scanFrom_respelled h 1 1 false).bind fun lines lines' hlines => ?_
  have hread := plain_ofLines lines'
  rw [← hlines] at hread
  exact (plain_ofLines lines).alike hread

end Diagram

end Lifeline
